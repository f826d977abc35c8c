import CallTrace.Proofs.Check.Consoles
import CallTrace.Proofs.Record.Requests

/-!
# Runs over a log

A session that takes the records of a file as they are read does the same as
one that is given all the entries that can be read off the file. Only where
the entries run out does it matter whether the file ended there or went on
with something that is no record. The hash is that of the whole file, however
little of it the session took. A device that fails and a console that does not
take everything make no difference until they are met.
-/

namespace CallTrace

/-- What comes of a run over a log that nothing interrupts. -/
structure PlainRun where
  /-- How it ended. -/
  ending : Ending
  /-- The session at the end. -/
  session : Session
  /-- What the session said. -/
  printed : String
  /-- The log at the end. -/
  log : HashedStream

/-- Say something before what was said. -/
def PlainRun.after (printed : String) (run : PlainRun) : PlainRun :=
  { run with printed := printed ++ run.printed }

theorem ok_of_mapError {ε ε' α : Type} {f : ε → ε'} {x : Except ε α} {a : α}
    (h : x.mapError f = .ok a) : x = .ok a := by
  cases x with
  | error e => cases h
  | ok b =>
    cases h
    rfl

/-- The run on a device and a console that nothing interrupts, behind what was said before. -/
def PlainRun.on (run : PlainRun) (said : Letters) (fault? : Option Refusal) : LogRun :=
  ⟨run.ending, run.session, said ++ Letters.ofString run.printed, ⟨run.log, fault?⟩⟩

/-- The end that a finding is, when the entries were followed by a fault or by none. -/
def Finding.ending (fault : Option ReadError) : Finding → Ending
  | .ranOut stage =>
    match fault with
    | some e => .unread e
    | none => .finding (.ranOut stage)
  | finding => .finding finding

/-- The end of a run that took entries up to a fault or to the end of the log. -/
def Taken.ending (t : Taken) (fault : Option ReadError) : Ending :=
  match t.outcome with
  | .error e => .stuck e
  | .ok a => (a.finding?.getD (.ranOut a.stage)).ending fault

theorem Taken.ending_of_error {t : Taken} {e : AdvanceError} (h : t.outcome = .error e)
    (fault : Option ReadError) : t.ending fault = .stuck e := by
  rw [Taken.ending, h]

theorem Taken.ending_of_final {t : Taken} {a : Advance} {f : Finding} (h : t.outcome = .ok a)
    (hf : a.ruling = .final f) (fault : Option ReadError) : t.ending fault = f.ending fault := by
  rw [Taken.ending, h]
  simp only [Advance.finding?, hf, Option.getD_some]

/-- Nothing but a device or a console interrupts a run. -/
theorem Taken.ending_ne_interrupted (t : Taken) (fault : Option ReadError) (e : Interruption) :
    t.ending fault ≠ .interrupted e := by
  unfold ending Finding.ending
  repeat' split
  all_goals nofun

namespace HashedStream

/-- The records of a log, off which the given number were read before. -/
def records (log : HashedStream) (taken : Nat) : RecordStream := ⟨log.stream, taken⟩

variable {log log' : HashedStream} {taken : Nat}

variable [Memory]

/-- An entry is read off a log as it is read off its records. -/
theorem read_records {outcome : Except ReadError (Option LogEntry)}
    (h : log.readEntry taken = (outcome, log')) :
    ∃ n, (log.records taken).read .logEntry = (outcome, log'.records n) := by
  have ho : ((log.records taken).read .logEntry).1 = outcome := congrArg Prod.fst h
  have hs : ((log.records taken).read .logEntry).2.stream = log'.stream :=
    congrArg (fun p => p.2.stream) h
  refine ⟨((log.records taken).read .logEntry).2.taken, Prod.ext ho ?_⟩
  change _ = (⟨log'.stream, _⟩ : RecordStream)
  rw [← hs]

/-- Reading an entry counts it. -/
theorem read_records_of_entry {entry : LogEntry}
    (h : log.readEntry taken = (.ok (some entry), log')) :
    (log.records taken).read .logEntry = (.ok (some entry), log'.records (taken + 1)) := by
  obtain ⟨n, hr⟩ := read_records h
  have hn : n = taken + 1 := RecordStream.taken_of_read hr
  rw [hr, hn]

theorem total_readEntry (log : HashedStream) (taken : Nat) :
    (log.readEntry taken).2.total = log.total :=
  log.total_through _ ((log.records taken).rest_read_suffix .logEntry)

/-- An entry that was read took at least one byte. -/
theorem length_lt_of_readEntry {entry : LogEntry}
    (h : log.readEntry taken = (.ok (some entry), log')) :
    log'.stream.rest.length < log.stream.rest.length :=
  RecordStream.length_lt_of_read (read_records_of_entry h)

end HashedStream

/-- An entry is read off a device as it is read off its bytes. -/
theorem OpenLog.readEntry_of_askRecord [Memory] {log log' : OpenLog} {taken : Nat}
    {outcome : Except ReadError (Option LogEntry)}
    (h : (askRecord .logEntry taken).onLog log = .ok (outcome, log')) :
    log.bytes.readEntry taken = (outcome, log'.bytes) ∧ log'.fault? = log.fault? := by
  rw [HashedStream.readEntry_eq]
  exact Requests.onLog_eq_ok h

/-- A report depends on nothing in a session but its stage and its count of entries. -/
theorem LogCheck.reportOn_congr (check : LogCheck) {s s' : Session} (hs : s.stage = s'.stage)
    (hn : s.entriesRead = s'.entriesRead) (ending : Ending) (logHash : Except Refusal String) :
    check.reportOn ending s logHash = check.reportOn ending s' logHash := by
  have hfault : ∀ kind message hash, Report.ofFault kind message s hash =
      Report.ofFault kind message s' hash := by
    intro kind message hash
    unfold Report.ofFault
    rw [hs, hn]
  have hrefused : ∀ refusal path?,
      check.refused s refusal path? = check.refused s' refusal path? := by
    intro refusal path?
    unfold LogCheck.refused
    rw [hfault, hfault]
  have hfinding : ∀ finding logHash, Report.ofFinding finding s logHash =
      Report.ofFinding finding s' logHash := by
    intro finding logHash
    unfold Report.ofFinding Finding.issues
    rw [hs, hn]
  unfold LogCheck.reportOn
  simp only [hfault, hrefused, hfinding]

variable [KnownTypes]

/-- An entry that ends a check does so whatever follows it. -/
theorem Stage.ending_of_final {stage : Stage} {entry : LogEntry} {target : Target} {a : Advance}
    {f : Finding} (h : stage.advance entry target = .ok a) (hf : a.ruling = .final f)
    (fault : Option ReadError) : f.ending fault = .finding f := by
  rcases Stage.advance_cases h with ⟨m, hm⟩ | ⟨-, ⟨-, hp⟩ | ⟨v, hv, -⟩⟩
  · rw [hf] at hm
    cases hm
  · cases hf.symm.trans hp
    rfl
  · cases hf.symm.trans hv
    rfl

namespace Session

variable [Memory]

/-- Take the entries of a log that nothing interrupts, up to a finding or an error. -/
def takeLog (s : Session) (log : HashedStream) (taken : Nat) : PlainRun :=
  match _h : log.readEntry taken with
  | (.error e, log) => ⟨.unread e, s, "", log⟩
  | (.ok none, log) => ⟨.finding (.ranOut s.stage), s, "", log⟩
  | (.ok (some entry), log') =>
    let t := s.take entry
    match t.outcome with
    | .error e => ⟨.stuck e, t.session, t.printed, log'⟩
    | .ok a =>
      match a.ruling with
      | .final finding => ⟨.finding finding, t.session, t.printed, log'⟩
      | .goOn _ => (t.session.takeLog log' (taken + 1)).after t.printed
termination_by log.stream.rest.length
decreasing_by exact HashedStream.length_lt_of_readEntry _h

section

variable {s : Session} {log log' : HashedStream} {taken : Nat} {entry : LogEntry} {a : Advance}

theorem takeLog_of_error {e : ReadError} (h : log.readEntry taken = (.error e, log')) :
    s.takeLog log taken = ⟨.unread e, s, "", log'⟩ := by
  rw [takeLog]
  split <;> cases h.symm.trans ‹_›
  rfl

theorem takeLog_of_none (h : log.readEntry taken = (.ok none, log')) :
    s.takeLog log taken = ⟨.finding (.ranOut s.stage), s, "", log'⟩ := by
  rw [takeLog]
  split <;> cases h.symm.trans ‹_›
  rfl

theorem takeLog_of_some (h : log.readEntry taken = (.ok (some entry), log')) :
    s.takeLog log taken =
      match (s.take entry).outcome with
      | .error e => ⟨.stuck e, (s.take entry).session, (s.take entry).printed, log'⟩
      | .ok a =>
        match a.ruling with
        | .final finding =>
          ⟨.finding finding, (s.take entry).session, (s.take entry).printed, log'⟩
        | .goOn _ =>
          ((s.take entry).session.takeLog log' (taken + 1)).after (s.take entry).printed := by
  rw [takeLog]
  split <;> cases h.symm.trans ‹_›
  rfl

end

/-- A run over a log ends like a run over the entries that can be read off the log. -/
theorem takeLog_eq (s : Session) (log : HashedStream) (taken : Nat) :
    let read := (log.records taken).readAll .logEntry
    (s.takeLog log taken).ending = (s.takeAll read.1).1.ending read.2 ∧
      (s.takeLog log taken).session = (s.takeAll read.1).1.session ∧
      (s.takeLog log taken).printed = (s.takeAll read.1).1.printed := by
  dsimp only
  -- The induction follows the run; every entry taken is the first of those that can be read.
  fun_induction takeLog s log taken with
  | case1 s log taken e log' hr =>
    obtain ⟨n, hread⟩ := HashedStream.read_records hr
    rw [RecordStream.readAll_of_error hread]
    exact ⟨rfl, rfl, rfl⟩
  | case2 s log taken log' hr =>
    obtain ⟨n, hread⟩ := HashedStream.read_records hr
    rw [RecordStream.readAll_of_none hread]
    exact ⟨rfl, rfl, rfl⟩
  | case3 s log taken entry log' hr t e he =>
    rw [RecordStream.readAll_of_some (HashedStream.read_records_of_entry hr),
      takeAll_of_error he]
    exact ⟨(Taken.ending_of_error he _).symm, rfl, rfl⟩
  | case4 s log taken entry log' hr t a ha finding hf =>
    rw [RecordStream.readAll_of_some (HashedStream.read_records_of_entry hr),
      takeAll_of_final ha hf]
    have hend : ∀ fault, t.ending fault = .finding finding := fun fault =>
      (Taken.ending_of_final ha hf fault).trans
        (Stage.ending_of_final (advance_of_take ha) hf fault)
    exact ⟨(hend _).symm, rfl, rfl⟩
  | case5 s log taken entry log' hr t a ha progress hg ih =>
    rw [RecordStream.readAll_of_some (HashedStream.read_records_of_entry hr),
      takeAll_of_goOn ha hg]
    obtain ⟨he, hs, hp⟩ := ih
    exact ⟨he, hs, congrArg (t.printed ++ ·) hp⟩

/-- However much of a log a run takes, the hash of the whole log stays what it is. -/
theorem total_takeLog (s : Session) (log : HashedStream) (taken : Nat) :
    (s.takeLog log taken).log.total = log.total := by
  have hread : ∀ {log log' : HashedStream} {taken : Nat} {outcome},
      log.readEntry taken = (outcome, log') → log'.total = log.total := by
    intro log log' taken outcome h
    have ht := HashedStream.total_readEntry log taken
    rwa [h] at ht
  fun_induction takeLog s log taken with
  | case1 s log taken e log' hr => exact hread hr
  | case2 s log taken log' hr => exact hread hr
  | case3 s log taken entry log' hr t e he => exact hread hr
  | case4 s log taken entry log' hr t a ha finding hf => exact hread hr
  | case5 s log taken entry log' hr t a ha progress hg ih => exact ih.trans (hread hr)

/-! ### On a device and a console -/

/-- A session that a device or a console kept from going on while it took entries. -/
inductive Interrupted : Session → List LogEntry → Session → Prop
  /-- Before the next entry was read. -/
  | between (s : Session) (entries : List LogEntry) : Interrupted s entries s
  /-- While it took the next entry. -/
  | within {s s' : Session} {entry : LogEntry} (h : s.BrokenOff entry s')
    (entries : List LogEntry) : Interrupted s (entry :: entries) s'
  /-- Later on, for the next entry leaves the check open. -/
  | later {s s' : Session} {entry : LogEntry} {entries : List LogEntry} {a : Advance}
    {m : Option Milestone} (ha : (s.take entry).outcome = .ok a) (hm : a.ruling = .goOn m)
    (h : Interrupted (s.take entry).session entries s') : Interrupted s (entry :: entries) s'

/--
A run on a device and a console is a plain run, or one that the device or the console interrupted
while it took the entries that can be read.
-/
theorem takeFrom_cases (s : Session) (console : Console) (said : Letters) (log : OpenLog)
    (taken : Nat) :
    s.takeFrom console said log taken = (s.takeLog log.bytes taken).on said log.fault? ∨
      ∃ e, (s.takeFrom console said log taken).ending = .interrupted e ∧
        e.ArisesFrom log.fault? console ∧
        s.Interrupted ((log.bytes.records taken).readAll .logEntry).1
          (s.takeFrom console said log taken).session := by
  have hsilent : ∀ said : Letters, said ++ Letters.ofString "" = said := List.append_nil
  fun_induction takeFrom s console said log taken with
  | case1 s said log taken refusal hr =>
    exact .inr ⟨_, rfl, .reading (Requests.fault_of_onLog hr), .between s _⟩
  | case2 s said log taken e log' hr =>
    obtain ⟨hread, hfault⟩ := OpenLog.readEntry_of_askRecord hr
    left
    rw [takeLog_of_error hread, PlainRun.on, hsilent, ← hfault]
  | case3 s said log taken log' hr =>
    obtain ⟨hread, hfault⟩ := OpenLog.readEntry_of_askRecord hr
    left
    rw [takeLog_of_none hread, PlainRun.on, hsilent, ← hfault]
  | case4 s said log taken entry log' hr fed ending hend =>
    obtain ⟨hread, hfault⟩ := OpenLog.readEntry_of_askRecord hr
    rw [RecordStream.readAll_of_some (HashedStream.read_records_of_entry hread),
      takeLog_of_some hread, ← hfault]
    have hfed : fed = s.feed console said entry := rfl
    rcases s.feed_cases console said entry log'.fault? with hplain | ⟨e, he, harises, hbroken⟩
    · left
      rw [hfed, hplain] at hend ⊢
      cases htake : (s.take entry).outcome with
      | error e =>
        rw [htake] at hend
        cases hend
        rfl
      | ok a =>
        rw [htake] at hend
        cases hend
    · cases hend.symm.trans he
      exact .inr ⟨e, rfl, harises, .within hbroken _⟩
  | case5 s said log taken entry log' hr fed a ha finding hf =>
    obtain ⟨hread, hfault⟩ := OpenLog.readEntry_of_askRecord hr
    rw [RecordStream.readAll_of_some (HashedStream.read_records_of_entry hread),
      takeLog_of_some hread, ← hfault]
    have hfed : fed = s.feed console said entry := rfl
    rcases s.feed_cases console said entry log'.fault? with hplain | ⟨e, he, -, -⟩
    · left
      rw [hfed, hplain] at ha ⊢
      have htake := ok_of_mapError ha
      rw [htake]
      simp only [hf]
      rfl
    · cases ha.symm.trans he
  | case6 s said log taken entry log' hr fed a ha progress hg ih =>
    obtain ⟨hread, hfault⟩ := OpenLog.readEntry_of_askRecord hr
    rw [RecordStream.readAll_of_some (HashedStream.read_records_of_entry hread),
      takeLog_of_some hread, ← hfault]
    have hfed : fed = s.feed console said entry := rfl
    rcases s.feed_cases console said entry log'.fault? with hplain | ⟨e, he, -, -⟩
    · rw [hfed, hplain] at ha ih ⊢
      have htake := ok_of_mapError ha
      rw [htake]
      simp only [hg]
      rcases ih with hrest | ⟨e, hend, harises, hrest⟩
      · left
        rw [hrest, PlainRun.on, PlainRun.on, PlainRun.after, Letters.ofString_append,
          List.append_assoc]
      · exact .inr ⟨e, hend, harises, .later htake hg hrest⟩
    · cases ha.symm.trans he

end Session

namespace LogCheck

variable [Memory]

/-- The entries that can be read off the content of a log, and the fault behind them, if any. -/
def read (content : List UInt8) : List LogEntry × Option ReadError :=
  (⟨⟨content, .file⟩, 0⟩ : RecordStream).readAll .logEntry

/-- The plain run over the content of a log. -/
def runOver (check : LogCheck) (verbose : Bool) (content : List UInt8) : PlainRun :=
  (check.session verbose).takeLog ⟨⟨content, .file⟩, {}⟩ 0

/-- A plain run ends like one over the entries that can be read. -/
theorem runOver_eq (check : LogCheck) (verbose : Bool) (content : List UInt8) :
    let run := check.runOver verbose content
    let taken := ((check.session verbose).takeAll (read content).1).1
    run.ending = taken.ending (read content).2 ∧ run.session = taken.session ∧
      run.printed = taken.printed :=
  (check.session verbose).takeLog_eq ⟨⟨content, .file⟩, {}⟩ 0

/-- Draining a log in chunks behind a plain run over it comes to the label of all of its content. -/
theorem label_drain_runOver (check : LogCheck) (verbose : Bool) (content : List UInt8) :
    ((check.runOver verbose content).log.drain chunkSize).hasher.label = Sha256.label content := by
  have hdrain := HashedStream.label_eq_drain (by decide) (check.runOver verbose content).log
    (chunkSize_lt_bound _)
  calc ((check.runOver verbose content).log.drain chunkSize).hasher.label
      = (check.runOver verbose content).log.label.1 := (congrArg Prod.fst hdrain).symm
    _ = (check.runOver verbose content).log.total.label := HashedStream.label_eq _
    _ = Sha256.label content := by
        rw [runOver, Session.total_takeLog]
        rfl

/-- What a plain run left is hashed to its end, unless the device tells a fault first. -/
theorem label_runOver (check : LogCheck) (verbose : Bool) (content : List UInt8)
    (fault? : Option Refusal) :
    OpenLog.label ⟨(check.runOver verbose content).log, fault?⟩ =
      match fault? with
      | none => .ok (Sha256.label content)
      | some refusal => .error refusal := by
  cases fault? with
  | some refusal => exact OpenLog.label_of_fault rfl
  | none => rw [OpenLog.label_of_sound rfl, label_drain_runOver]

/--
A check of an opened log reports on the plain run over it and says what that says, or on one that
was interrupted.
-/
theorem runThrough_cases (check : LogCheck) (verbose : Bool) (opened : OpenedFile)
    (console : Console) :
    let run := check.runOver verbose opened.content
    check.runThrough verbose opened console =
        ⟨check.reportOn run.ending run.session
          (match opened.fault? with
            | none => .ok (Sha256.label opened.content)
            | some refusal => .error refusal), Letters.ofString run.printed⟩ ∨
      ∃ e session, e.ArisesFrom opened.fault? console ∧
        (check.session verbose).Interrupted (read opened.content).1 session ∧
        ∀ logHash, (check.runThrough verbose opened console).outcome =
          check.reportOn (.interrupted e) session logHash := by
  intro run
  unfold runThrough
  dsimp only
  rcases (check.session verbose).takeFrom_cases console []
    ⟨⟨⟨opened.content, .file⟩, {}⟩, opened.fault?⟩ 0 with hplain | ⟨e, hend, harises, hrest⟩
  · left
    rw [hplain]
    change (⟨check.reportOn run.ending run.session (OpenLog.label ⟨run.log, opened.fault?⟩), _⟩ :
      Checked) = _
    rw [label_runOver]
    rfl
  · refine .inr ⟨e, _, harises, hrest, fun logHash => ?_⟩
    rw [hend]
    cases e <;> rfl

/-- A check of a log that can be read to its end reports on the plain run over it. -/
theorem runOn_eq (check : LogCheck) (verbose : Bool) (content : List UInt8) :
    let run := check.runOver verbose content
    check.runOn verbose content =
      ⟨check.reportOn run.ending run.session (.ok (Sha256.label content)),
        Letters.ofString run.printed⟩ := by
  rcases check.runThrough_cases verbose { content := content } .open with hplain | ⟨e, _, h, -⟩
  · exact hplain
  · exact absurd h Interruption.not_arisesFrom_open

end LogCheck

end CallTrace
