import CallTrace.Proofs.Check.Failures
import CallTrace.Proofs.Check.LogRuns

/-!
# Verbose and quiet checks

A verbose check shows every entry that it takes before the entry is judged. It
comes to what the quiet check comes to where each of these entries can be
shown. At the first one that cannot, it is left without a report, which the
quiet check may not be, for that shows no entry.
-/

namespace CallTrace

section

variable [KnownTypes]

/-- An entry that can be shown, with all that is packed in it. -/
def LogEntry.Sound (entry : LogEntry) : Prop := ∀ a ∈ entry.envelopes, a.Sound

/-- Either all entries can be shown, or there is a first one that cannot. -/
theorem sound_or_first_unsound (entries : List LogEntry) :
    (∀ entry ∈ entries, entry.Sound) ∨
      ∃ (before : List LogEntry) (entry : LogEntry) (after : List LogEntry) (e : DecodeError),
        entries = before ++ entry :: after ∧ (∀ x ∈ before, x.Sound) ∧
          entry.transcript = .error e := by
  rcases forall_not_or_exists_first (fun entry : LogEntry => ¬ entry.Sound) entries with
    hall | ⟨before, entry, after, hsplit, hb, hunsound⟩
  · exact .inl fun entry hm => Classical.not_not.mp (hall entry hm)
  · have hsound : ∀ x ∈ before, x.Sound := fun x hm => Classical.not_not.mp (hb x hm)
    cases ht : entry.transcript with
    | error e => exact .inr ⟨before, entry, after, e, hsplit, hsound, ht⟩
    | ok text => exact absurd (entry.transcript_iff.mp ⟨text, ht⟩) hunsound

/-- A session can show a sound entry. -/
theorem Session.announce_of_sound (s : Session) {entry : LogEntry} (h : entry.Sound) :
    ∃ text, s.announce entry = .ok text := by
  obtain ⟨text, ht⟩ := entry.transcript_iff.mpr h
  rw [announce_eq, ht]
  split
  · exact ⟨_, rfl⟩
  · exact ⟨_, rfl⟩

theorem Session.announce_of_verbose {s : Session} (hv : s.verbose = true) {entry : LogEntry}
    {e : DecodeError} (h : entry.transcript = .error e) : s.announce entry = .error e := by
  rw [announce_eq, if_pos hv, h]
  rfl

namespace LogCheck

variable (check : LogCheck) (content : List UInt8)

variable [Memory]

/-- The entries that the quiet check takes off the content of a log. -/
def taken : List LogEntry :=
  (read content).1.take (check.runOver false content).session.entriesRead

/-- The quiet check takes the entries that decide, and only these. -/
theorem taken_eq :
    check.taken content = (Stage.awaitLookup.run check.target (read content).1).consumed := by
  have hprefix := Stage.consumed_isPrefix check.target .awaitLookup (read content).1
  obtain ⟨-, hs⟩ := Session.takeAll_of_quiet (s := check.session false) rfl (read content).1
  obtain ⟨-, hlog, -⟩ := check.runOver_eq false content
  have hcount : (check.runOver false content).session.entriesRead =
      (Stage.awaitLookup.run check.target (read content).1).consumed.length := by
    rw [hlog]
    exact (congrArg Session.entriesRead hs).trans (Nat.zero_add _)
  rw [taken, hcount]
  exact (List.prefix_iff_eq_take.mp hprefix).symm

/-- A verbose check that can show what the quiet one takes comes to the same. -/
theorem outcome_of_sound (h : ∀ entry ∈ check.taken content, entry.Sound) :
    (check.runOn true content).outcome = (check.runOn false content).outcome := by
  rw [taken_eq] at h
  obtain ⟨hov, hsv⟩ := (check.session true).takeAll_of_shown (read content).1
    fun entry hm => Session.announce_of_sound _ (h entry hm)
  obtain ⟨hoq, hsq⟩ := Session.takeAll_of_quiet (s := check.session false) rfl (read content).1
  obtain ⟨hev, hlv, -⟩ := check.runOver_eq true content
  obtain ⟨heq, hlq, -⟩ := check.runOver_eq false content
  have hending : ((check.session true).takeAll (read content).1).1.ending (read content).2 =
      ((check.session false).takeAll (read content).1).1.ending (read content).2 := by
    unfold Taken.ending
    rw [hov, hoq]
    rfl
  rw [runOn_eq, runOn_eq, hev, hending, ← heq, hlv, hlq]
  exact check.reportOn_congr
    ((congrArg Session.stage hsv).trans (congrArg Session.stage hsq).symm)
    ((congrArg Session.entriesRead hsv).trans (congrArg Session.entriesRead hsq).symm) _ _

/-- A verbose check stops without a report at the first entry that it cannot show. -/
theorem outcome_of_unsound {before after : List LogEntry} {entry : LogEntry} {e : DecodeError}
    (ht : check.taken content = before ++ entry :: after) (hb : ∀ x ∈ before, x.Sound)
    (he : entry.transcript = .error e) :
    (check.runOn true content).outcome = .error (.rendering e) := by
  rw [taken_eq] at ht
  have ho := (check.session true).takeAll_of_unshown ht
    (fun x hx => Session.announce_of_sound _ (hb x hx)) (Session.announce_of_verbose rfl he)
  obtain ⟨hending, -, -⟩ := check.runOver_eq true content
  rw [runOn_eq, hending, Taken.ending_of_error ho]
  rfl

end LogCheck

variable [Memory]

/--
A verbose check has the outcome of the quiet one just where every entry that the quiet one takes
can be shown, or where the quiet one is left without a report for the same text that is missing.
-/
theorem runOn_verbose_iff (check : LogCheck) (content : List UInt8) :
    (check.runOn true content).outcome = (check.runOn false content).outcome ↔
      (∀ entry ∈ check.taken content, entry.Sound) ∨
        ∃ (before : List LogEntry) (entry : LogEntry) (after : List LogEntry) (e : DecodeError),
          check.taken content = before ++ entry :: after ∧ (∀ x ∈ before, x.Sound) ∧
            entry.transcript = .error e ∧
            (check.runOn false content).outcome = .error (.rendering e) := by
  constructor
  · intro h
    rcases sound_or_first_unsound (check.taken content) with
      hs | ⟨before, entry, after, e, ht, hb, he⟩
    · exact .inl hs
    · have hv := check.outcome_of_unsound content ht hb he
      exact .inr ⟨before, entry, after, e, ht, hb, he, h.symm.trans hv⟩
  · intro h
    rcases h with hs | ⟨before, entry, after, e, ht, hb, he, hq⟩
    · exact check.outcome_of_sound content hs
    · exact (check.outcome_of_unsound content ht hb he).trans hq.symm

end

/-- An unrelated call whose status has details that cannot be displayed. -/
def LogEntry.corruptlyEnded : LogEntry :=
  { status := some { details := [.corruptStatus] }, methodName := "/ByteStream/Read" }

attribute [local instance] Memory.addressable in
theorem LogCheck.read_corruptlyEnded :
    LogCheck.read (MessageType.logEntry.record .corruptlyEnded) = ([.corruptlyEnded], none) := by
  have hfirst : (⟨⟨MessageType.logEntry.record .corruptlyEnded, .file⟩, 0⟩ : RecordStream).read
      .logEntry = (.ok (some .corruptlyEnded), ⟨⟨[], .file⟩, 1⟩) := by with_unfolding_all rfl
  have hend : (⟨⟨[], .file⟩, 1⟩ : RecordStream).read .logEntry =
      (.ok none, ⟨⟨[], .file⟩, 1⟩) := rfl
  rw [read, RecordStream.readAll_of_some hfirst, RecordStream.readAll_of_none hend]

attribute [local instance] Memory.addressable KnownTypes.ofLogs in
/-- A verbose check is left without a report where the quiet one says what is missing. -/
theorem runOn_verbose_of_corrupt_detail :
    let content := MessageType.logEntry.record .corruptlyEnded
    let check : LogCheck := ⟨⟨.working, ["log"]⟩, ⟨"h", 1, by decide⟩⟩
    (check.runOn true content).outcome = .error (.rendering ⟨"google.rpc.Status", .corrupt⟩) ∧
      ∃ report, (check.runOn false content).outcome = .ok report ∧
        report.verdict = .incomplete := by
  intro content check
  have hread : LogCheck.read content = ([.corruptlyEnded], none) := LogCheck.read_corruptlyEnded
  have hrun : Stage.awaitLookup.run check.target [.corruptlyEnded] =
      ⟨.ok Stage.awaitLookup.ranOut, .awaitLookup, [.corruptlyEnded]⟩ := by
    rw [Stage.run_of_goOn (Stage.advance_of_unrelated _ (by decide) _) rfl]
    rfl
  have htaken : check.taken content = [] ++ .corruptlyEnded :: [] := by
    rw [LogCheck.taken_eq, hread, hrun]
    rfl
  have htext : LogEntry.corruptlyEnded.transcript =
      .error ⟨"google.rpc.Status", .corrupt⟩ := by with_unfolding_all rfl
  refine ⟨check.outcome_of_unsound content htaken (by simp) htext, ?_⟩
  have hending : (check.runOver false content).ending = .finding (.ranOut .awaitLookup) := by
    obtain ⟨ho, -⟩ := Session.takeAll_of_quiet (s := check.session false) rfl [.corruptlyEnded]
    obtain ⟨he, -, -⟩ := check.runOver_eq false content
    rw [he, hread, Taken.ending_of_final (ho.trans (congrArg Run.outcome hrun)) rfl]
    rfl
  have hreport : (check.runOn false content).outcome =
      .ok (.ofFinding (.ranOut .awaitLookup) (check.runOver false content).session
        (Sha256.label content)) := by
    rw [LogCheck.runOn_eq, hending]
    rfl
  exact ⟨_, hreport, rfl⟩

end CallTrace
