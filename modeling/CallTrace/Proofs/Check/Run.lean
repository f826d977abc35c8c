import CallTrace.Check.Session
import CallTrace.Proofs.Check.Steps

/-!
# Runs of a check

A run says of a list of entries what comes of checking it, apart from any
counting and printing: the outcome, the stage at the end and the entries that
were looked at. A session that takes the list does just what the run says as
long as it can show the entries, which a quiet session always can.
-/

namespace CallTrace

/-- What comes of checking a list of entries. -/
structure Run where
  /-- Where the deciding entry led, or why it led nowhere, or that the list ran out. -/
  outcome : Except AdvanceError Advance
  /-- The stage at the end. -/
  stage : Stage
  /-- The entries looked at: all up to the deciding one. -/
  consumed : List LogEntry

/-- An entry looked at before those of a run. -/
def Run.behind (entry : LogEntry) (r : Run) : Run := { r with consumed := entry :: r.consumed }

variable [KnownTypes]

/-- Check a list of entries from a stage on. -/
def Stage.run (target : Target) : Stage → List LogEntry → Run
  | stage, [] => ⟨.ok stage.ranOut, stage, []⟩
  | stage, entry :: entries =>
    match stage.advance entry target with
    | .error e => ⟨.error e, stage, [entry]⟩
    | .ok a =>
      match a.ruling with
      | .final _ => ⟨.ok a, a.stage, [entry]⟩
      | .goOn _ => (Stage.run target a.stage entries).behind entry

namespace Stage

variable {target : Target} {stage : Stage} {entry : LogEntry} {entries : List LogEntry}

/-- An entry that leads nowhere ends the run. -/
theorem run_of_error {e : AdvanceError} (h : stage.advance entry target = .error e) :
    stage.run target (entry :: entries) = ⟨.error e, stage, [entry]⟩ := by
  rw [run]
  simp only [h]

/-- An entry that decides ends the run. -/
theorem run_of_final {a : Advance} {f : Finding} (h : stage.advance entry target = .ok a)
    (hr : a.ruling = .final f) :
    stage.run target (entry :: entries) = ⟨.ok a, a.stage, [entry]⟩ := by
  rw [run]
  simp only [h, hr]

/-- After any other entry the run goes on from the stage that the entry led to. -/
theorem run_of_goOn {a : Advance} {m : Option Milestone}
    (h : stage.advance entry target = .ok a) (hr : a.ruling = .goOn m) :
    stage.run target (entry :: entries) = (a.stage.run target entries).behind entry := by
  rw [run]
  simp only [h, hr]

/-- A violation ends the run. -/
theorem run_of_violation {v : Violation}
    (h : stage.advance entry target = .ok (.violation stage v)) :
    stage.run target (entry :: entries) = ⟨.ok (.violation stage v), stage, [entry]⟩ :=
  run_of_final h rfl

/-- The first execution ends the run. -/
theorem outcome_run_execution (h : entry.Plays .execution) :
    (awaitExecute.run target (entry :: entries)).outcome = onExecution entry target := by
  have ha := advance_of_execution h target
  cases he : onExecution entry target with
  | error e =>
    rw [run_of_error (ha.trans he)]
  | ok a =>
    obtain ⟨f, hf⟩ := final_of_onExecution he
    rw [run_of_final (ha.trans he) hf]

/-- The entries looked at are the first ones of the list. -/
theorem consumed_isPrefix (target : Target) (stage : Stage) (entries : List LogEntry) :
    (stage.run target entries).consumed <+: entries := by
  induction entries generalizing stage with
  | nil => exact List.prefix_refl _
  | cons entry entries ih =>
    have hone : [entry] <+: entry :: entries := ⟨entries, rfl⟩
    cases h : stage.advance entry target with
    | error e =>
      rw [run_of_error h]
      exact hone
    | ok a =>
      cases hr : a.ruling with
      | final f =>
        rw [run_of_final h hr]
        exact hone
      | goOn m =>
        rw [run_of_goOn h hr]
        exact List.prefix_cons_inj entry |>.mpr (ih a.stage)

/-- Calls that do not matter have no part in the outcome. -/
theorem outcome_run_filter (target : Target) (stage : Stage) (entries : List LogEntry) :
    (stage.run target (entries.filter fun entry => !isUnrelated entry.methodName)).outcome =
      (stage.run target entries).outcome := by
  induction entries generalizing stage with
  | nil => rfl
  | cons entry entries ih =>
    cases hu : isUnrelated entry.methodName with
    | true =>
      rw [List.filter_cons_of_neg (by simp [hu]), ih,
        run_of_goOn (stage.advance_of_unrelated hu target) rfl]
      rfl
    | false =>
      rw [List.filter_cons_of_pos (by simp [hu])]
      cases h : stage.advance entry target with
      | error e => rw [run_of_error h, run_of_error h]
      | ok a =>
        cases hr : a.ruling with
        | final f => rw [run_of_final h hr, run_of_final h hr]
        | goOn m =>
          rw [run_of_goOn h hr, run_of_goOn h hr]
          exact ih a.stage

end Stage

namespace Session

/-- A verbose session shows an entry with a ruler below it, a quiet one says nothing. -/
theorem announce_eq (s : Session) (entry : LogEntry) :
    s.announce entry = if s.verbose then entry.transcript.map (· ++ ruler) else .ok "" := by
  unfold announce announcement
  split
  · cases entry.transcript <;> rfl
  · rfl

omit [KnownTypes] in
theorem noteLines_eq (s : Session) (a : Advance) :
    s.noteLines a = if s.verbose then String.join (a.notes.map (· ++ "\n")) else "" := by
  unfold noteLines notes
  split <;> rfl

omit [KnownTypes] in
theorem progressLines_eq (s : Session) (a : Advance) :
    s.progressLines a =
      match a.progress? with
      | some text => if s.verbose || a.verdict? = some .pass then text ++ "\n" ++ ruler else ""
      | none => "" := by
  unfold progressLines progress
  cases a.progress? with
  | none => rfl
  | some text =>
    dsimp only
    split <;> rfl

/-- An entry that cannot be shown leads nowhere. -/
theorem take_of_unshown {s : Session} {entry : LogEntry} {e : DecodeError}
    (h : s.announce entry = .error e) :
    s.take entry = ⟨.error (.rendering e), { s with entriesRead := s.entriesRead + 1 }, ""⟩ := by
  have h' : ({ s with entriesRead := s.entriesRead + 1 } : Session).announce entry = .error e := h
  unfold take
  simp only [h']

/-- An entry that can be shown leads where the stage says. -/
theorem take_of_shown {s : Session} {entry : LogEntry} {text : String}
    (h : s.announce entry = .ok text) :
    s.take entry =
      match s.stage.advance entry s.target with
      | .error e => ⟨.error e, { s with entriesRead := s.entriesRead + 1 }, text⟩
      | .ok a =>
        ⟨.ok a, { s with stage := a.stage, entriesRead := s.entriesRead + 1 },
          text ++ s.noteLines a ++ s.progressLines a⟩ := by
  have h' : ({ s with entriesRead := s.entriesRead + 1 } : Session).announce entry = .ok text := h
  unfold take
  simp only [h']
  rfl

variable {s : Session} {entry : LogEntry} {entries : List LogEntry} {a : Advance}

/-- An entry that leads nowhere is the last one taken. -/
theorem takeAll_of_error {e : AdvanceError} (h : (s.take entry).outcome = .error e) :
    s.takeAll (entry :: entries) = (s.take entry, entries) := by
  rw [takeAll]
  simp only [h]

/-- An entry that decides is the last one taken. -/
theorem takeAll_of_final {f : Finding} (h : (s.take entry).outcome = .ok a)
    (hf : a.ruling = .final f) : s.takeAll (entry :: entries) = (s.take entry, entries) := by
  rw [takeAll]
  simp only [h, hf]

/-- After any other entry the session takes the next ones. -/
theorem takeAll_of_goOn {m : Option Milestone} (h : (s.take entry).outcome = .ok a)
    (hm : a.ruling = .goOn m) :
    s.takeAll (entry :: entries) =
      (((s.take entry).session.takeAll entries).1.after (s.take entry).printed,
        ((s.take entry).session.takeAll entries).2) := by
  rw [takeAll]
  simp only [h, hm]

/-- An entry that was taken to a good end led there from the stage of the session. -/
theorem advance_of_take (h : (s.take entry).outcome = .ok a) :
    s.stage.advance entry s.target = .ok a := by
  cases ha : s.announce entry with
  | error e =>
    rw [take_of_unshown ha] at h
    cases h
  | ok text =>
    rw [take_of_shown ha] at h
    cases hs : s.stage.advance entry s.target with
    | error e =>
      rw [hs] at h
      cases h
    | ok b =>
      rw [hs] at h
      exact h

/-- The session behind a run. -/
def afterRun (s : Session) (r : Run) : Session :=
  { s with stage := r.stage, entriesRead := s.entriesRead + r.consumed.length }

/-- A session that can show the entries of the run does what the run says. -/
theorem takeAll_of_shown (s : Session) (entries : List LogEntry)
    (h : ∀ entry ∈ (s.stage.run s.target entries).consumed, ∃ text, s.announce entry = .ok text) :
    (s.takeAll entries).1.outcome = (s.stage.run s.target entries).outcome ∧
      (s.takeAll entries).1.session = s.afterRun (s.stage.run s.target entries) := by
  induction entries generalizing s with
  | nil => exact ⟨rfl, rfl⟩
  | cons entry entries ih =>
    have hfirst : entry ∈ (s.stage.run s.target (entry :: entries)).consumed := by
      rw [Stage.run]
      split
      · simp
      · split <;> simp [Run.behind]
    obtain ⟨text, ht⟩ := h entry hfirst
    have htake := take_of_shown ht
    cases ha : s.stage.advance entry s.target with
    | error e =>
      rw [ha] at htake
      rw [takeAll_of_error (congrArg Taken.outcome htake), htake, Stage.run_of_error ha]
      exact ⟨rfl, rfl⟩
    | ok a =>
      rw [ha] at htake
      have ho := congrArg Taken.outcome htake
      cases hr : a.ruling with
      | final f =>
        rw [takeAll_of_final ho hr, htake, Stage.run_of_final ha hr]
        exact ⟨rfl, rfl⟩
      | goOn m =>
        rw [Stage.run_of_goOn ha hr] at h ⊢
        rw [takeAll_of_goOn ho hr, htake]
        obtain ⟨hout, hs⟩ := ih { s with stage := a.stage, entriesRead := s.entriesRead + 1 }
          fun x hx => h x (List.mem_cons_of_mem _ hx)
        refine ⟨hout, hs.trans ?_⟩
        simp only [afterRun, Run.behind, List.length_cons]
        congr 1
        omega

/-- A quiet session can always show an entry: it says nothing of it. -/
theorem announce_of_quiet {s : Session} (h : s.verbose = false) (entry : LogEntry) :
    s.announce entry = .ok "" := by
  simp [announce_eq, h]

/-- A quiet session does what the run says. -/
theorem takeAll_of_quiet {s : Session} (h : s.verbose = false) (entries : List LogEntry) :
    (s.takeAll entries).1.outcome = (s.stage.run s.target entries).outcome ∧
      (s.takeAll entries).1.session = s.afterRun (s.stage.run s.target entries) :=
  s.takeAll_of_shown entries fun entry _ => ⟨"", announce_of_quiet h entry⟩

/-- A session that cannot show an entry of the run stops at the first such entry. -/
theorem takeAll_of_unshown (s : Session) {entries before after : List LogEntry} {entry : LogEntry}
    {e : DecodeError} (hc : (s.stage.run s.target entries).consumed = before ++ entry :: after)
    (hb : ∀ x ∈ before, ∃ text, s.announce x = .ok text) (he : s.announce entry = .error e) :
    (s.takeAll entries).1.outcome = .error (.rendering e) := by
  induction entries generalizing s before with
  | nil => simp [Stage.run] at hc
  | cons x entries ih =>
    obtain ⟨rest, hrest⟩ := Stage.consumed_isPrefix s.target s.stage (x :: entries)
    rw [hc] at hrest
    cases before with
    | nil =>
      obtain ⟨rfl, -⟩ := List.cons.inj hrest
      have htake := take_of_unshown he
      rw [takeAll_of_error (congrArg Taken.outcome htake), htake]
    | cons b before =>
      obtain ⟨rfl, -⟩ := List.cons.inj hrest
      obtain ⟨text, ht⟩ := hb b List.mem_cons_self
      have htake := take_of_shown ht
      cases ha : s.stage.advance b s.target with
      | error err =>
        rw [Stage.run_of_error ha] at hc
        simp at hc
      | ok a =>
        rw [ha] at htake
        cases hr : a.ruling with
        | final f =>
          rw [Stage.run_of_final ha hr] at hc
          simp at hc
        | goOn m =>
          rw [Stage.run_of_goOn ha hr] at hc
          rw [takeAll_of_goOn (congrArg Taken.outcome htake) hr, htake]
          exact ih { s with stage := a.stage, entriesRead := s.entriesRead + 1 }
            (List.cons.inj hc).2 (fun y hy => hb y (List.mem_cons_of_mem _ hy)) he

end Session

end CallTrace
