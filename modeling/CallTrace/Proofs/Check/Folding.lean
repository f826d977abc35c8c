import CallTrace.Proofs.Check.LogRuns
import CallTrace.Proofs.Record.Cutting

/-!
# Checking as a fold

A check reads a log and takes its entries in one pass. It comes to the same as
reading all there is first and then feeding the entries to a session one by one:
the first entry that ends the check decides, and where none does, what stopped
the reading. So whatever stands behind the deciding entry shows in the hash alone.
-/

namespace CallTrace

/-- What was taken leaves the check open. -/
def Taken.GoesOn (t : Taken) : Prop := ∃ a m, t.outcome = .ok a ∧ a.ruling = .goOn m

namespace Session

variable [KnownTypes]

/-- The session after it took some entries one by one, whatever came of them. -/
def afterTaking (s : Session) (entries : List LogEntry) : Session :=
  entries.foldl (fun s entry => (s.take entry).session) s

/-- No entry of the list ends the check. -/
def Undecided : Session → List LogEntry → Prop
  | _, [] => True
  | s, entry :: entries => (s.take entry).GoesOn ∧ (s.take entry).session.Undecided entries

variable {s : Session} {entry : LogEntry} {entries before : List LogEntry}

/-- An entry that is taken counts, and changes nothing else in a session but its stage. -/
theorem session_take (s : Session) (entry : LogEntry) :
    (s.take entry).session =
      { s with
        stage := match (s.take entry).outcome with
          | .ok a => a.stage
          | .error _ => s.stage
        entriesRead := s.entriesRead + 1 } := by
  cases ha : s.announce entry with
  | error e => rw [take_of_unshown ha]
  | ok text =>
    rw [take_of_shown ha]
    cases s.stage.advance entry s.target <;> rfl

theorem exists_stage_afterTaking (s : Session) (entries : List LogEntry) :
    ∃ stage, s.afterTaking entries =
      { s with stage := stage, entriesRead := s.entriesRead + entries.length } := by
  induction entries generalizing s with
  | nil => exact ⟨s.stage, rfl⟩
  | cons entry entries ih =>
    have hfirst := s.session_take entry
    obtain ⟨last, hrest⟩ := ih (s.take entry).session
    refine ⟨last, ?_⟩
    rw [afterTaking, List.foldl_cons, ← afterTaking, hrest, hfirst, List.length_cons]
    simp only [Nat.add_assoc, Nat.add_comm 1]

theorem entriesRead_take (s : Session) (entry : LogEntry) :
    (s.take entry).session.entriesRead = s.entriesRead + 1 := by
  rw [session_take]

theorem entriesRead_afterTaking (s : Session) (entries : List LogEntry) :
    (s.afterTaking entries).entriesRead = s.entriesRead + entries.length := by
  obtain ⟨stage, hs⟩ := s.exists_stage_afterTaking entries
  rw [hs]

/-- An entry that leaves the check open is followed by the next ones. -/
theorem takeAll_of_goesOn (h : (s.take entry).GoesOn) :
    s.takeAll (entry :: entries) =
      (((s.take entry).session.takeAll entries).1.after (s.take entry).printed,
        ((s.take entry).session.takeAll entries).2) := by
  obtain ⟨a, m, ha, hm⟩ := h
  exact takeAll_of_goOn ha hm

/-- An entry that ends the check is the last one taken. -/
theorem takeAll_of_decisive (h : ¬ (s.take entry).GoesOn) :
    s.takeAll (entry :: entries) = (s.take entry, entries) := by
  cases ha : (s.take entry).outcome with
  | error e => exact takeAll_of_error ha
  | ok a =>
    cases hr : a.ruling with
    | goOn m => exact absurd ⟨a, m, ha, hr⟩ h
    | final f => exact takeAll_of_final ha hr

/-- While entries leave the check open, all of them are taken. -/
theorem session_takeAll_of_undecided (h : s.Undecided entries) :
    (s.takeAll entries).1.session = s.afterTaking entries := by
  induction entries generalizing s with
  | nil => rfl
  | cons entry entries ih =>
    obtain ⟨hgo, hrest⟩ := h
    rw [takeAll_of_goesOn hgo]
    exact ih hrest

/-- After entries that leave the check open, the session that they leave takes what follows. -/
theorem takeAll_append_of_undecided (h : s.Undecided before) (entries : List LogEntry) :
    s.takeAll (before ++ entries) =
      (((s.takeAll before).1.session.takeAll entries).1.after (s.takeAll before).1.printed,
        ((s.takeAll before).1.session.takeAll entries).2) := by
  induction before generalizing s with
  | nil =>
    have hsilent : ∀ t : Taken, t.after "" = t := fun t => by rw [Taken.after, String.empty_append]
    exact Prod.ext (hsilent _).symm rfl
  | cons entry before ih =>
    obtain ⟨hgo, hrest⟩ := h
    rw [List.cons_append, takeAll_of_goesOn hgo, takeAll_of_goesOn hgo, ih hrest, Taken.after,
      Taken.after, Taken.after, Taken.after, String.append_assoc]

/-- After an entry that ends the check, what follows is left over. -/
theorem takeAll_append_of_ended (h : ¬ s.Undecided before) (entries : List LogEntry) :
    s.takeAll (before ++ entries) = ((s.takeAll before).1, (s.takeAll before).2 ++ entries) := by
  induction before generalizing s with
  | nil => exact absurd trivial h
  | cons entry before ih =>
    by_cases hgo : (s.take entry).GoesOn
    · have hrest : ¬ (s.take entry).session.Undecided before := fun hu => h ⟨hgo, hu⟩
      rw [List.cons_append, takeAll_of_goesOn hgo, takeAll_of_goesOn hgo, ih hrest]
    · rw [List.cons_append, takeAll_of_decisive hgo, takeAll_of_decisive hgo]

/-- After entries that leave the check open it is as if a later session took what follows. -/
theorem takeAll_append (h : s.Undecided before) :
    ∃ text, ∀ entries, (s.takeAll (before ++ entries)).1 =
      ((s.afterTaking before).takeAll entries).1.after text := by
  refine ⟨(s.takeAll before).1.printed, fun entries => ?_⟩
  rw [takeAll_append_of_undecided h, session_takeAll_of_undecided h]

/-- Entries leave the check open, or a first one ends it. -/
theorem undecided_or_exists_decisive (s : Session) (entries : List LogEntry) :
    s.Undecided entries ∨ ∃ before entry after, entries = before ++ entry :: after ∧
      s.Undecided before ∧ ¬ ((s.afterTaking before).take entry).GoesOn := by
  induction entries generalizing s with
  | nil => exact .inl trivial
  | cons entry entries ih =>
    by_cases hgo : (s.take entry).GoesOn
    · rcases ih (s.take entry).session with hu | ⟨before, e, after, rfl, hu, he⟩
      · exact .inl ⟨hgo, hu⟩
      · exact .inr ⟨entry :: before, e, after, rfl, ⟨hgo, hu⟩, he⟩
    · exact .inr ⟨[], entry, entries, rfl, trivial, hgo⟩

end Session

/-- The report with the hash of another log. -/
def Report.rehashed (r : Report) (logHash : String) : Report := { r with logHash := some logHash }

/-- The report that a check comes to with what a session took last. -/
def Taken.report (t : Taken) (logHash : String) : Except CheckError Report :=
  match t.outcome with
  | .ok a => .ok (.ofFinding (a.finding?.getD (.ranOut a.stage)) t.session logHash)
  | .error (.response e) => .ok (.ofFault .decodeError e.message t.session (some logHash))
  | .error (.rendering e) => .error (.rendering e)

theorem Taken.report_rehashed (t : Taken) (logHash logHash' : String) :
    t.report logHash' = (t.report logHash).map (·.rehashed logHash') := by
  unfold report
  split <;> rfl

namespace Session

variable [KnownTypes] {s : Session} {entry : LogEntry}

/-- The report on an entry with which a check has a verdict. -/
theorem report_take_of_ok (hd : ¬ (s.take entry).GoesOn) {a : Advance}
    (ha : (s.take entry).outcome = .ok a) (logHash : String) :
    ∃ verdict message, a.verdict? = some verdict ∧ a.message? = some message ∧
      (s.take entry).report logHash = .ok
        { ok := verdict = .pass, verdict := verdict, stage := a.stage,
          entriesRead := s.entriesRead + 1, message := message, logHash := some logHash,
          issues := a.kind?.toList.map fun kind =>
            { kind := kind, message := message, stage := a.stage,
              entryIndex := some s.entriesRead } } := by
  rcases Stage.advance_cases (advance_of_take ha) with ⟨m, hm⟩ | ⟨-, hf⟩
  · exact absurd ⟨a, m, ha, hm⟩ hd
  · have hfinding : ∃ finding, a.ruling = .final finding ∧ ∀ stage, finding ≠ .ranOut stage := by
      rcases hf with ⟨-, hf⟩ | ⟨v, hf, -⟩
      · exact ⟨_, hf, nofun⟩
      · exact ⟨_, hf, nofun⟩
    obtain ⟨finding, hf, hnot⟩ := hfinding
    have hfound := Advance.finding?_of_final hf
    refine ⟨finding.verdict, finding.message, Advance.verdict?_of_final hf, ?_, ?_⟩
    · rw [Advance.message?, hfound, Option.map_some]
    · rw [Taken.report, session_take, Advance.kind?]
      simp only [ha, hfound]
      cases finding with
      | passed hash => rfl
      | violated v => rfl
      | ranOut stage => exact absurd rfl (hnot stage)

/-- The report on an execution with a response that cannot be had. -/
theorem report_take_of_response {e : ResponseError}
    (he : (s.take entry).outcome = .error (.response e)) (logHash : String) :
    (s.take entry).report logHash = .ok
      { ok := false, verdict := .fail, stage := s.stage, entriesRead := s.entriesRead + 1,
        message := e.message, logHash := some logHash,
        issues :=
          [{ kind := .decodeError, message := e.message, stage := s.stage,
             entryIndex := none }] } := by
  rw [Taken.report, session_take]
  simp only [he]
  rfl

/-- There is no report on an entry with a text that is missing. -/
theorem report_take_of_rendering {e : DecodeError}
    (he : (s.take entry).outcome = .error (.rendering e)) (logHash : String) :
    (s.take entry).report logHash = .error (.rendering e) := by
  rw [Taken.report, he]

end Session

namespace LogCheck

variable {check : LogCheck} {verbose : Bool} {content : List UInt8} {before after : List LogEntry}
  {entry : LogEntry}

variable [KnownTypes]

/-- A run that ended with what an entry decided has the report on it. -/
theorem reportOn_of_decisive (check : LogCheck) {s : Session} (hd : ¬ (s.take entry).GoesOn)
    (fault : Option ReadError) (logHash : String) :
    check.reportOn ((s.take entry).ending fault) (s.take entry).session (.ok logHash) =
      (s.take entry).report logHash := by
  unfold reportOn Taken.report
  cases ha : (s.take entry).outcome with
  | error e =>
    rw [Taken.ending_of_error ha]
    cases e <;> rfl
  | ok a =>
    cases hr : a.ruling with
    | goOn m => exact absurd ⟨a, m, ha, hr⟩ hd
    | final f =>
      rw [Taken.ending_of_final ha hr, Stage.ending_of_final (Session.advance_of_take ha) hr]
      simp only [Advance.finding?, hr, Option.getD_some]

variable [Memory]

/-- The first entry that ends the check decides, whatever can or cannot be read behind it. -/
theorem runOn_of_decisive (hu : (check.session verbose).Undecided before)
    (hd : ¬ (((check.session verbose).afterTaking before).take entry).GoesOn) :
    ∃ text, ∀ content after, (read content).1 = before ++ entry :: after →
      (check.runOn verbose content).outcome =
        (((check.session verbose).afterTaking before).take entry).report (Sha256.label content) ∧
      (check.runOn verbose content).printed = text := by
  obtain ⟨text, ht⟩ := Session.takeAll_append hu
  refine ⟨Letters.ofString
    (text ++ (((check.session verbose).afterTaking before).take entry).printed),
    fun content after hread => ?_⟩
  obtain ⟨he, hs, hp⟩ := check.runOver_eq verbose content
  rw [hread, ht, Session.takeAll_of_decisive hd] at he hs hp
  rw [runOn_eq, he, hs, hp]
  exact ⟨reportOn_of_decisive check hd _ _, rfl⟩

/-- Where no entry ends the check, what stopped the reading does. -/
theorem runOn_of_undecided (check : LogCheck) (verbose : Bool)
    (hu : (check.session verbose).Undecided (read content).1) :
    (check.runOn verbose content).outcome =
      match (read content).2 with
      | none => .ok (.ofFinding
          (.ranOut ((check.session verbose).afterTaking (read content).1).stage)
          ((check.session verbose).afterTaking (read content).1) (Sha256.label content))
      | some (.record e) => .ok (.ofFault .decodeError e.message
          ((check.session verbose).afterTaking (read content).1) (some (Sha256.label content)))
      | some (.request e) => .error (.request e) := by
  obtain ⟨text, ht⟩ := Session.takeAll_append hu
  have hall := ht []
  rw [List.append_nil] at hall
  obtain ⟨he, hs, -⟩ := check.runOver_eq verbose content
  rw [hall] at he hs
  rw [runOn_eq, he, hs]
  rcases (read content).2 with _ | (e | e) <;> rfl

variable (hu : (check.session verbose).Undecided (read content).1)
include hu

/-- A log that no entry decides has run out where nothing but its end stopped the reading. -/
theorem runOn_of_exhausted (htail : (read content).2 = none) :
    let left := (check.session verbose).afterTaking (read content).1
    (check.runOn verbose content).outcome = .ok
      { ok := false, verdict := .incomplete, stage := left.stage, entriesRead := left.entriesRead,
        message := Letters.ofString ("Log ended while still expecting " ++ left.stage.awaited),
        logHash := some (Sha256.label content),
        issues :=
          [{ kind := .logExhausted
             message := Letters.ofString ("Log ended while still expecting " ++ left.stage.awaited)
             stage := left.stage
             entryIndex := none }] } := by
  intro left
  rw [runOn_of_undecided check verbose hu, htail]
  rfl

/-- A log that no entry decides cannot be decoded where something in it is no record. -/
theorem runOn_of_undecodable {e : RecordError} (htail : (read content).2 = some (.record e)) :
    let left := (check.session verbose).afterTaking (read content).1
    (check.runOn verbose content).outcome = .ok
      { ok := false, verdict := .fail, stage := left.stage, entriesRead := left.entriesRead,
        message := e.message, logHash := some (Sha256.label content),
        issues :=
          [{ kind := .decodeError, message := e.message, stage := left.stage,
             entryIndex := none }] } := by
  intro left
  rw [runOn_of_undecided check verbose hu, htail]
  rfl

/-- A check that no entry decides has no report where a declared length is not granted. -/
theorem runOn_of_refused {e : RequestError} (htail : (read content).2 = some (.request e)) :
    (check.runOn verbose content).outcome = .error (.request e) := by
  rw [runOn_of_undecided check verbose hu, htail]

omit hu

omit [KnownTypes] in
/-- All entries are read off a written log. -/
theorem read_written {entries : List LogEntry}
    (hs : ∀ entry ∈ entries, MessageType.logEntry.Storable .file entry) :
    read (entries.flatMap MessageType.logEntry.record) = (entries, none) := by
  have hend := RecordStream.readAll_of_none
    (RecordStream.read_of_nil (r := ⟨⟨[], .file⟩, 0 + entries.length⟩) .logEntry rfl)
  have hall := RecordStream.readAll_of_records (t := .logEntry) hs [] 0
  rw [List.append_nil, hend, List.append_nil] at hall
  exact hall

/-- The bytes of a log up to where so many entries were read. -/
def front (content : List UInt8) (count : Nat) : List UInt8 :=
  content.take ((RecordStream.afterReads .logEntry count ⟨⟨content, .file⟩, 0⟩).position content)

omit [KnownTypes] in
/-- Logs with the same front have the same first entries. -/
theorem read_of_front {content' : List UInt8} {count : Nat}
    (hc : count ≤ (read content).1.length) (hf : front content count <+: content') :
    (read content).1.take count <+: (read content').1 := by
  obtain ⟨used, hused, hagain⟩ := RecordStream.readAll_again hc
  have hfront : front content count = used := by
    have hlength := congrArg List.length hused
    rw [List.length_append] at hlength
    rw [front, RecordStream.position, hlength, Nat.add_sub_cancel, hused, List.take_left]
  rw [hfront] at hf
  obtain ⟨rest, rfl⟩ := hf
  exact hagain rest

end LogCheck

section

variable [Memory] [KnownTypes]

/--
A check of a log comes to the same as reading all of it first and then feeding the entries to a
fresh session. The first entry that ends the check decides, be it with a finding, with a response
that cannot be had, or with a text that is missing; where none does, what stopped the reading
decides. A log that is the same up to the end of the deciding record is told of in the same words,
and its report is the same but for the hash.
-/
theorem runOn_folds (check : LogCheck) (verbose : Bool) (content : List UInt8) :
    let start := check.session verbose
    let entries := (LogCheck.read content).1
    let logHash := Sha256.label content
    let checked := check.runOn verbose content
    (∀ before entry after, entries = before ++ entry :: after → start.Undecided before →
      let session := start.afterTaking before
      let last := session.take entry
      ¬ last.GoesOn →
        (∀ a, last.outcome = .ok a → ∃ verdict message,
          a.verdict? = some verdict ∧ a.message? = some message ∧
          checked.outcome = .ok
            { ok := verdict = .pass, verdict := verdict, stage := a.stage,
              entriesRead := before.length + 1, message := message, logHash := some logHash,
              issues := a.kind?.toList.map fun kind =>
                { kind := kind, message := message, stage := a.stage,
                  entryIndex := some before.length } }) ∧
        (∀ e, last.outcome = .error (.response e) → checked.outcome = .ok
            { ok := false, verdict := .fail, stage := session.stage,
              entriesRead := before.length + 1, message := e.message, logHash := some logHash,
              issues :=
                [{ kind := .decodeError, message := e.message, stage := session.stage,
                   entryIndex := none }] }) ∧
        (∀ e, last.outcome = .error (.rendering e) → checked.outcome = .error (.rendering e)) ∧
        ∀ content', LogCheck.front content (before.length + 1) <+: content' →
          (check.runOn verbose content').printed = checked.printed ∧
          (check.runOn verbose content').outcome =
            checked.outcome.map (·.rehashed (Sha256.label content'))) ∧
    (start.Undecided entries →
      let left := start.afterTaking entries
      ((LogCheck.read content).2 = none → checked.outcome = .ok
        { ok := false, verdict := .incomplete, stage := left.stage, entriesRead := entries.length,
          message := Letters.ofString ("Log ended while still expecting " ++ left.stage.awaited),
          logHash := some logHash,
          issues :=
            [{ kind := .logExhausted
               message := Letters.ofString ("Log ended while still expecting " ++ left.stage.awaited)
               stage := left.stage
               entryIndex := none }] }) ∧
      (∀ e, (LogCheck.read content).2 = some (.record e) → checked.outcome = .ok
        { ok := false, verdict := .fail, stage := left.stage, entriesRead := entries.length,
          message := e.message, logHash := some logHash,
          issues :=
            [{ kind := .decodeError, message := e.message, stage := left.stage,
               entryIndex := none }] }) ∧
      ∀ e, (LogCheck.read content).2 = some (.request e) → checked.outcome = .error (.request e)) := by
  intro start entries logHash checked
  have hcounts : ∀ taken, (start.afterTaking taken).entriesRead = taken.length := by
    intro taken
    rw [Session.entriesRead_afterTaking, show start.entriesRead = 0 from rfl, Nat.zero_add]
  refine ⟨?_, ?_⟩
  · intro before entry after hentries hu session last hd
    obtain ⟨text, hrun⟩ := LogCheck.runOn_of_decisive hu hd
    obtain ⟨houtcome, hprinted⟩ := hrun content after hentries
    refine ⟨fun a ha => ?_, fun e he => ?_, fun e he => ?_, fun content' hfront => ?_⟩
    · obtain ⟨verdict, message, hv, hm, hreport⟩ := Session.report_take_of_ok hd ha logHash
      rw [hcounts] at hreport
      exact ⟨verdict, message, hv, hm, houtcome.trans hreport⟩
    · rw [← hcounts before]
      exact houtcome.trans (Session.report_take_of_response he logHash)
    · exact houtcome.trans (Session.report_take_of_rendering he logHash)
    · have hfirst : entries.take (before.length + 1) = before ++ [entry] := by
        rw [hentries, List.take_append, List.take_of_length_le (Nat.le_add_right _ _),
          Nat.add_sub_cancel_left, List.take_succ_cons, List.take_zero]
      have hcount : before.length + 1 ≤ entries.length := by
        rw [hentries, List.length_append, List.length_cons]
        omega
      obtain ⟨after', hafter⟩ := LogCheck.read_of_front hcount hfront
      change entries.take _ ++ _ = _ at hafter
      rw [hfirst, List.append_assoc, List.singleton_append] at hafter
      obtain ⟨houtcome', hprinted'⟩ := hrun content' after' hafter.symm
      refine ⟨hprinted'.trans hprinted.symm, ?_⟩
      rw [houtcome', houtcome]
      exact last.report_rehashed _ _
  · intro hu left
    rw [← hcounts entries]
    exact ⟨LogCheck.runOn_of_exhausted hu, fun e => LogCheck.runOn_of_undecodable hu,
      fun e => LogCheck.runOn_of_refused hu⟩

end

/-- A call that does not matter, and an execution where a lookup should stand. -/
def earlyExecution : List LogEntry := [{ methodName := "/ByteStream/Read" }, .ofExecution []]

attribute [local instance] Memory.addressable in
theorem storable_earlyExecution :
    ∀ entry ∈ earlyExecution, MessageType.logEntry.Storable .file entry := by
  have hd : ∀ entry ∈ earlyExecution,
      MessageType.logEntry.decode (MessageType.logEntry.encode entry) = .ok entry := by
    simp only [earlyExecution, List.forall_mem_cons, List.not_mem_nil, false_implies,
      implies_true, and_true]
    exact ⟨by with_unfolding_all rfl, by with_unfolding_all rfl⟩
  have hlt : ∀ entry ∈ earlyExecution,
      (MessageType.logEntry.encode entry).length < Medium.file.bound := by
    simp only [earlyExecution, List.forall_mem_cons, List.not_mem_nil, false_implies,
      implies_true, and_true]
    exact ⟨by decide +kernel, by decide +kernel⟩
  exact fun entry h => ⟨⟨_, hd entry h⟩, hlt entry h⟩

theorem undecided_read [KnownTypes] (s : Session) (h : s.verbose = false) :
    s.Undecided [{ methodName := "/ByteStream/Read" }] := by
  refine ⟨⟨{ stage := s.stage, ruling := .goOn none }, none, ?_, rfl⟩, trivial⟩
  rw [Session.take_of_shown (Session.announce_of_quiet h _),
    Stage.advance_of_unrelated _ (by decide)]

theorem outcome_execution [KnownTypes] (s : Session) (hq : s.verbose = false)
    (hs : s.stage = .awaitLookup) :
    (s.take (.ofExecution [])).outcome = .ok (.violation .awaitLookup
      (.unexpectedMethod .awaitLookup "/Execution/Execute" s.target.hash)) := by
  rw [Session.take_of_shown (Session.announce_of_quiet hq _), hs,
    Stage.advance_of_plays _ (LogEntry.plays_ofExecution [])]
  rfl

theorem decisive_execution [KnownTypes] (s : Session) (hs : s.stage = .awaitLookup) :
    ¬ (s.take (.ofExecution [])).GoesOn := by
  rintro ⟨a, m, ha, hm⟩
  have hadvance := Session.advance_of_take ha
  rw [hs, Stage.advance_of_plays _ (LogEntry.plays_ofExecution [])] at hadvance
  cases hadvance
  cases hm

attribute [local instance] Memory.addressable KnownTypes.ofLogs in
theorem runOn_folds_earlyExecution :
    let check : LogCheck := ⟨⟨.working, ["log"]⟩, ⟨"h", 1, by decide⟩⟩
    let start := check.session false
    let torn := earlyExecution.flatMap MessageType.logEntry.record ++ [5]
    (LogCheck.read torn).1 = [{ methodName := "/ByteStream/Read" }] ++ .ofExecution [] :: [] ∧
      start.Undecided [{ methodName := "/ByteStream/Read" }] ∧
      ¬ ((start.afterTaking [{ methodName := "/ByteStream/Read" }]).take (.ofExecution [])).GoesOn ∧
      (check.runOn false torn).outcome = .ok
        { ok := false, verdict := .fail, stage := .awaitLookup, entriesRead := 2,
          message := "Unexpected method: /Execution/Execute. Expected FindMissingBlobs",
          logHash := some (Sha256.label torn),
          issues :=
            [{ kind := .unexpectedMethod
               message := "Unexpected method: /Execution/Execute. Expected FindMissingBlobs"
               stage := .awaitLookup
               entryIndex := some 1 }] } := by
  intro check start torn
  have hread : (LogCheck.read torn).1 = earlyExecution ++ [] := by
    have hrest : (⟨⟨[5], .file⟩, 2⟩ : RecordStream).read .logEntry =
        (.error (.record (.short 2 5 0)), ⟨⟨[], .file⟩, 2⟩) := rfl
    have hall := RecordStream.readAll_of_records (t := .logEntry)
      storable_earlyExecution [5] 0
    exact (congrArg Prod.fst hall).trans (congrArg (earlyExecution ++ ·)
      (congrArg Prod.fst (RecordStream.readAll_of_error hrest)))
  have hu := undecided_read start rfl
  have hd := decisive_execution (start.afterTaking [{ methodName := "/ByteStream/Read" }]) rfl
  have htake := outcome_execution (start.afterTaking [{ methodName := "/ByteStream/Read" }]) rfl rfl
  obtain ⟨hfinal, -⟩ := (runOn_folds check false torn).1 _ _ _ hread hu hd
  obtain ⟨verdict, message, hverdict, hmessage, houtcome⟩ := hfinal _ htake
  cases hverdict
  cases hmessage
  exact ⟨hread, hu, hd, houtcome⟩

end CallTrace
