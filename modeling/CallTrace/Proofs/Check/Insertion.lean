import CallTrace.Proofs.Check.Histories

/-!
# Calls that are put into a log

Calls that do not matter may be put into a log anywhere and in any number. A quiet
check comes to the same end as before, at the same stage and with the same words.
It has only counted what was put in before the entry that decided, and that entry
stands so much later in the log.
-/

namespace CallTrace

/-- A call of a log into which calls that do not matter were put. -/
inductive LogPiece where
  /-- A call that was there before. -/
  | kept (entry : LogEntry)
  /-- A call that was put in. -/
  | added (entry : LogEntry) (unrelated : isUnrelated entry.methodName = true)

namespace LogPiece

/-- The call. -/
def entry : LogPiece → LogEntry
  | kept entry => entry
  | added entry _ => entry

/-- The call, if it was there before. -/
def kept? : LogPiece → Option LogEntry
  | kept entry => some entry
  | added _ _ => none

/-- Whether the call was put in. -/
def isAdded : LogPiece → Bool
  | kept _ => false
  | added _ _ => true

/-- The log as it was. -/
def original (log : List LogPiece) : List LogEntry := log.filterMap kept?

/-- The log as it is. -/
def extended (log : List LogPiece) : List LogEntry := log.map entry

end LogPiece

/-- A session that took so many entries more. -/
def Session.counting (s : Session) (count : Nat) : Session :=
  { s with entriesRead := s.entriesRead + count }

/-- What was taken by a session that took so many entries more. -/
def Taken.counting (t : Taken) (count : Nat) : Taken :=
  { t with session := t.session.counting count }

namespace Session

variable {s : Session} {entry : LogEntry} {entries : List LogEntry}

theorem counting_counting (s : Session) (m n : Nat) :
    (s.counting m).counting n = s.counting (m + n) := by
  rw [counting, counting, counting, Nat.add_assoc]

variable [KnownTypes]

/-- What a session makes of an entry does not depend on what it has counted. -/
theorem take_counting (s : Session) (count : Nat) (entry : LogEntry) :
    (s.counting count).take entry = (s.take entry).counting count := by
  have hcount : s.entriesRead + count + 1 = s.entriesRead + 1 + count := by omega
  have hshow : (s.counting count).announce entry = s.announce entry := rfl
  cases ha : s.announce entry with
  | error e =>
    rw [take_of_unshown ha, take_of_unshown (hshow.trans ha)]
    simp only [Taken.counting, counting, hcount]
  | ok text =>
    rw [take_of_shown ha, take_of_shown (hshow.trans ha)]
    simp only [counting, hcount]
    cases s.stage.advance entry s.target <;> rfl

theorem goesOn_counting_iff (s : Session) (count : Nat) (entry : LogEntry) :
    ((s.counting count).take entry).GoesOn ↔ (s.take entry).GoesOn := by
  rw [take_counting]
  rfl

theorem afterTaking_counting (s : Session) (count : Nat) (entries : List LogEntry) :
    (s.counting count).afterTaking entries = (s.afterTaking entries).counting count := by
  induction entries generalizing s with
  | nil => rfl
  | cons entry entries ih =>
    change afterTaking ((s.counting count).take entry).session entries = _
    rw [take_counting]
    exact ih (s.take entry).session

theorem undecided_counting_iff (s : Session) (count : Nat) (entries : List LogEntry) :
    (s.counting count).Undecided entries ↔ s.Undecided entries := by
  induction entries generalizing s with
  | nil => exact Iff.rfl
  | cons entry entries ih =>
    rw [Undecided, Undecided, goesOn_counting_iff, take_counting]
    exact and_congr_right fun _ => ih (s.take entry).session

/-- A quiet session counts a call that does not matter, and that is all. -/
theorem take_of_unrelated (hq : s.verbose = false) (hu : isUnrelated entry.methodName = true) :
    s.take entry = ⟨.ok { stage := s.stage, ruling := .goOn none }, s.counting 1, ""⟩ := by
  rw [take_of_shown (announce_of_quiet hq entry), Stage.advance_of_unrelated s.stage hu]
  simp [noteLines_eq, progressLines_eq, Advance.progress?, hq, counting]

omit [KnownTypes] in
/-- A quiet session tells of no milestone but the pass. -/
theorem progressLines_of_not_pass {a : Advance} (hq : s.verbose = false)
    (h : a.verdict? ≠ some .pass) : s.progressLines a = "" := by
  rw [progressLines_eq]
  cases a.progress? with
  | none => rfl
  | some told => simp [hq, h]

/-- A quiet session says nothing before an entry that ends the check. -/
theorem printed_take_of_goesOn (hq : s.verbose = false) (h : (s.take entry).GoesOn) :
    (s.take entry).printed = "" := by
  obtain ⟨a, m, ha, hm⟩ := h
  have hv : a.verdict? ≠ some .pass := by
    rw [Advance.verdict?_of_goOn hm]
    nofun
  rw [take_of_shown (announce_of_quiet hq entry), advance_of_take ha]
  simp [noteLines_eq, hq, progressLines_of_not_pass hq hv]

theorem verbose_take (s : Session) (entry : LogEntry) :
    (s.take entry).session.verbose = s.verbose :=
  s.verbose_afterTaking [entry]

/-- A quiet session takes entries that leave the check open without a word. -/
theorem takeAll_append_of_quiet {before : List LogEntry} (hq : s.verbose = false)
    (h : s.Undecided before) (entries : List LogEntry) :
    (s.takeAll (before ++ entries)).1 = ((s.afterTaking before).takeAll entries).1 := by
  induction before generalizing s with
  | nil => rfl
  | cons entry before ih =>
    obtain ⟨hgo, hrest⟩ := h
    rw [List.cons_append, takeAll_of_goesOn hgo, ih ((s.verbose_take entry).trans hq) hrest,
      printed_take_of_goesOn hq hgo, Taken.after, String.empty_append]
    rfl

theorem takeAll_of_undecided (hq : s.verbose = false) (h : s.Undecided entries) :
    (s.takeAll entries).1 =
      ⟨.ok (s.afterTaking entries).stage.ranOut, s.afterTaking entries, ""⟩ := by
  have hall := takeAll_append_of_quiet hq h []
  rw [List.append_nil] at hall
  exact hall

theorem takeAll_of_first {before : List LogEntry} (hq : s.verbose = false)
    (h : s.Undecided before) (hd : ¬ ((s.afterTaking before).take entry).GoesOn)
    (after : List LogEntry) :
    (s.takeAll (before ++ entry :: after)).1 = (s.afterTaking before).take entry := by
  rw [takeAll_append_of_quiet hq h, takeAll_of_decisive hd]

/-- Calls that are put in are counted, and that is all. -/
theorem afterTaking_pieces (hq : s.verbose = false) (log : List LogPiece) :
    s.afterTaking (LogPiece.extended log) =
      (s.afterTaking (LogPiece.original log)).counting (log.countP LogPiece.isAdded) := by
  induction log generalizing s with
  | nil => rfl
  | cons piece log ih =>
    cases piece with
    | kept entry => exact ih ((s.verbose_take entry).trans hq)
    | added entry hu =>
      have hadded : (LogPiece.added entry hu).isAdded = true := rfl
      change (s.take entry).session.afterTaking (LogPiece.extended log) = _
      rw [take_of_unrelated hq hu, afterTaking_counting, ih hq, counting_counting,
        List.countP_cons_of_pos hadded]
      rfl

/-- Calls that are put in do not end a check, and keep no other call from ending it. -/
theorem undecided_pieces_iff (hq : s.verbose = false) (log : List LogPiece) :
    s.Undecided (LogPiece.extended log) ↔ s.Undecided (LogPiece.original log) := by
  induction log generalizing s with
  | nil => exact Iff.rfl
  | cons piece log ih =>
    cases piece with
    | kept entry => exact and_congr_right fun _ => ih ((s.verbose_take entry).trans hq)
    | added entry hu =>
      have htake := take_of_unrelated hq hu
      have hgo : (s.take entry).GoesOn := ⟨_, none, congrArg Taken.outcome htake, rfl⟩
      change _ ∧ (s.take entry).session.Undecided (LogPiece.extended log) ↔ _
      rw [htake, undecided_counting_iff, ih hq]
      exact and_iff_right hgo

/-- No entry of a log with calls put in ends the check, or a first one does that was there before.
-/
theorem undecided_or_exists_kept (hq : s.verbose = false) (log : List LogPiece) :
    s.Undecided (LogPiece.extended log) ∨ ∃ first entry rest, log = first ++ .kept entry :: rest ∧
      s.Undecided (LogPiece.extended first) ∧
        ¬ ((s.afterTaking (LogPiece.extended first)).take entry).GoesOn := by
  rcases s.undecided_or_exists_decisive (LogPiece.extended log) with
    hu | ⟨before, entry, after, hsplit, hu, hd⟩
  · exact .inl hu
  · obtain ⟨first, last, rfl, rfl, hlast⟩ := List.map_eq_append_iff.mp hsplit
    obtain ⟨piece, rest, rfl, rfl, -⟩ := List.map_eq_cons_iff.mp hlast
    cases piece with
    | kept entry => exact .inr ⟨first, entry, rest, rfl, hu, hd⟩
    | added entry hunrelated =>
      have hquiet := (s.verbose_afterTaking (LogPiece.extended first)).trans hq
      have htake := take_of_unrelated hquiet hunrelated
      exact absurd ⟨_, none, congrArg Taken.outcome htake, rfl⟩ hd

/-- A quiet session takes a log with calls put in like the log as it was, but for the count. -/
theorem takeAll_pieces (hq : s.verbose = false) (log : List LogPiece) :
    ∃ taken left, log = taken ++ left ∧
      (s.takeAll (LogPiece.extended log)).1 =
        (s.takeAll (LogPiece.original log)).1.counting (taken.countP LogPiece.isAdded) ∧
      (s.takeAll (LogPiece.extended log)).1.session.entriesRead = s.entriesRead + taken.length ∧
      (s.Undecided (LogPiece.extended log) ∧ left = [] ∨
        ∃ first entry, taken = first ++ [.kept entry] ∧ s.Undecided (LogPiece.extended first) ∧
          ¬ ((s.afterTaking (LogPiece.extended first)).take entry).GoesOn) := by
  rcases undecided_or_exists_kept hq log with hu | ⟨first, entry, left, rfl, hu, hd⟩
  · refine ⟨log, [], (List.append_nil log).symm, ?_, ?_, .inl ⟨hu, rfl⟩⟩
    · rw [takeAll_of_undecided hq hu,
        takeAll_of_undecided hq ((undecided_pieces_iff hq log).mp hu), afterTaking_pieces hq]
      rfl
    · rw [takeAll_of_undecided hq hu, entriesRead_afterTaking, LogPiece.extended, List.length_map]
  · have hextended : LogPiece.extended (first ++ .kept entry :: left) =
        LogPiece.extended first ++ entry :: LogPiece.extended left := List.map_append
    have horiginal : LogPiece.original (first ++ .kept entry :: left) =
        LogPiece.original first ++ entry :: LogPiece.original left := List.filterMap_append
    have hfull := takeAll_of_first hq hu hd (LogPiece.extended left)
    have hcount := afterTaking_pieces hq first
    refine ⟨first ++ [.kept entry], left, ?_, ?_, ?_, .inr ⟨first, entry, rfl, hu, hd⟩⟩
    · rw [List.append_assoc]
      rfl
    · rw [hcount, goesOn_counting_iff] at hd
      rw [hextended, horiginal, hfull,
        takeAll_of_first hq ((undecided_pieces_iff hq first).mp hu) hd, hcount, take_counting,
        List.countP_append]
      rfl
    · rw [hextended, hfull, entriesRead_take, entriesRead_afterTaking, LogPiece.extended,
        List.length_map, List.length_append]
      rfl

end Session

/-- An issue with an entry that stands so much later in the log. -/
def Issue.moved (i : Issue) (count : Nat) : Issue :=
  { i with entryIndex := i.entryIndex.map (· + count) }

/-- A report on a log in which so many entries more were taken before the one that decided. -/
def Report.moved (r : Report) (count : Nat) : Report :=
  { r with entriesRead := r.entriesRead + count, issues := r.issues.map (·.moved count) }

theorem Report.ofFinding_counting (f : Finding) {s : Session} (hs : 1 ≤ s.entriesRead)
    (count : Nat) (logHash logHash' : String) :
    ofFinding f (s.counting count) logHash' =
      ((ofFinding f s logHash).moved count).rehashed logHash' := by
  have hindex : s.entriesRead + count - 1 = s.entriesRead - 1 + count := by omega
  cases f with
  | passed hash => rfl
  | violated v =>
    simp only [ofFinding, Finding.issues, Session.counting, hindex]
    rfl
  | ranOut stage => rfl

theorem Taken.report_counting {t : Taken} (ht : 1 ≤ t.session.entriesRead) (count : Nat)
    (logHash logHash' : String) :
    (t.counting count).report logHash' =
      (t.report logHash).map fun r => (r.moved count).rehashed logHash' := by
  unfold report counting
  dsimp only
  split
  · rw [Report.ofFinding_counting _ ht count logHash]
    rfl
  · rfl
  · rfl

namespace LogCheck

variable {check : LogCheck} {content content' : List UInt8} {log : List LogPiece}

variable [Memory] [KnownTypes]

/-- Where no entry ends the check, the log runs out as it did before. -/
theorem runOn_of_pieces_undecided (hu : (check.session false).Undecided (LogPiece.extended log))
    (hc : read content = (LogPiece.original log, none))
    (hc' : read content' = (LogPiece.extended log, none)) :
    (check.runOn false content').outcome = (check.runOn false content).outcome.map fun r =>
      (r.moved (log.countP LogPiece.isAdded)).rehashed (Sha256.label content') := by
  have hq : (check.session false).verbose = false := rfl
  have hu₁ : (check.session false).Undecided (read content).1 := by
    rw [hc]
    exact (Session.undecided_pieces_iff hq log).mp hu
  have hu₂ : (check.session false).Undecided (read content').1 := by
    rw [hc']
    exact hu
  have h₁ := check.runOn_of_undecided false hu₁
  have h₂ := check.runOn_of_undecided false hu₂
  rw [hc] at h₁
  rw [hc'] at h₂
  rw [h₁, h₂]
  dsimp only
  rw [Session.afterTaking_pieces hq]
  rfl

/-- The entry that decides does so behind calls that are put in, too. -/
theorem runOn_of_pieces_decisive {first left : List LogPiece} {entry : LogEntry}
    (hu : (check.session false).Undecided (LogPiece.extended first))
    (hd : ¬ (((check.session false).afterTaking (LogPiece.extended first)).take entry).GoesOn)
    (hc : (read content).1 = LogPiece.original (first ++ .kept entry :: left))
    (hc' : (read content').1 = LogPiece.extended (first ++ .kept entry :: left)) :
    (check.runOn false content').outcome = (check.runOn false content).outcome.map fun r =>
      (r.moved (first.countP LogPiece.isAdded)).rehashed (Sha256.label content') := by
  have hq : (check.session false).verbose = false := rfl
  have hcount := Session.afterTaking_pieces hq first
  obtain ⟨text', hrun'⟩ := runOn_of_decisive hu hd
  rw [hcount, Session.goesOn_counting_iff] at hd
  obtain ⟨text, hrun⟩ := runOn_of_decisive ((Session.undecided_pieces_iff hq first).mp hu) hd
  have hlast := Session.entriesRead_take
    ((check.session false).afterTaking (LogPiece.original first)) entry
  rw [(hrun content (LogPiece.original left) (hc.trans List.filterMap_append)).1,
    (hrun' content' (LogPiece.extended left) (hc'.trans List.map_append)).1, hcount,
    Session.take_counting]
  exact Taken.report_counting (by omega) _ _ _

end LogCheck

section

variable [Memory] [KnownTypes]

/--
Calls that do not matter may be put into a log anywhere. A quiet session comes to the same end as
before, at the same stage and with the same words, and has counted what was put in before the entry
that decides; that entry was there before. A check of the log has the same report, but for the hash
and for that count.
-/
theorem takeAll_extended (check : LogCheck) (log : List LogPiece) :
    let start := check.session false
    let plain := (start.takeAll (LogPiece.original log)).1
    let full := (start.takeAll (LogPiece.extended log)).1
    let taken := log.take full.session.entriesRead
    let count := taken.countP LogPiece.isAdded
    full.outcome = plain.outcome ∧ full.printed = plain.printed ∧
      full.session.stage = plain.session.stage ∧
      full.session.entriesRead = plain.session.entriesRead + count ∧
      (start.Undecided (LogPiece.extended log) ∧ taken = log ∨
        ∃ first entry, taken = first ++ [.kept entry] ∧
          start.Undecided (LogPiece.extended first) ∧
          ¬ ((start.afterTaking (LogPiece.extended first)).take entry).GoesOn) ∧
      ∀ content content', (LogCheck.read content).1 = LogPiece.original log →
        (LogCheck.read content').1 = LogPiece.extended log →
        ¬ start.Undecided (LogPiece.extended log) ∨
          (LogCheck.read content).2 = none ∧ (LogCheck.read content').2 = none →
        (check.runOn false content').outcome = (check.runOn false content).outcome.map fun r =>
          (r.moved count).rehashed (Sha256.label content') := by
  intro start plain full taken count
  have hq : start.verbose = false := rfl
  obtain ⟨pulled, left, hlog, hfull, hread, hend⟩ := Session.takeAll_pieces hq log
  have htaken : taken = pulled := by
    have hlength : full.session.entriesRead = pulled.length := hread.trans (Nat.zero_add _)
    simp only [taken]
    rw [hlength, hlog, List.take_left]
  have hfull' : full = plain.counting count := by
    simp only [count, htaken]
    exact hfull
  refine ⟨(congrArg Taken.outcome hfull').trans rfl, (congrArg Taken.printed hfull').trans rfl,
    (congrArg (fun t : Taken => t.session.stage) hfull').trans rfl,
    (congrArg (fun t : Taken => t.session.entriesRead) hfull').trans rfl, ?_,
    fun content content' hc hc' htail => ?_⟩
  · rcases hend with ⟨hu, rfl⟩ | ⟨first, entry, hp, hu, hd⟩
    · exact .inl ⟨hu, by rw [htaken, hlog, List.append_nil]⟩
    · exact .inr ⟨first, entry, htaken.trans hp, hu, hd⟩
  · simp only [count, htaken]
    rcases hend with ⟨hu, rfl⟩ | ⟨first, entry, rfl, hu, hd⟩
    · rw [List.append_nil] at hlog
      obtain ⟨hn, hn'⟩ := htail.resolve_left (absurd hu)
      rw [← hlog]
      exact LogCheck.runOn_of_pieces_undecided hu (Prod.ext hc hn) (Prod.ext hc' hn')
    · rw [hlog, List.append_assoc] at hc hc'
      rw [List.countP_append]
      exact LogCheck.runOn_of_pieces_decisive hu hd hc hc'

end

attribute [local instance] Memory.addressable KnownTypes.ofLogs in
theorem takeAll_extended_earlyExecution :
    let check : LogCheck := ⟨⟨.working, ["log"]⟩, ⟨"h", 1, by decide⟩⟩
    let log : List LogPiece :=
      [.added { methodName := "/ByteStream/Read" } (by decide), .kept (.ofExecution [])]
    let content := (LogPiece.original log).flatMap MessageType.logEntry.record
    let content' := (LogPiece.extended log).flatMap MessageType.logEntry.record
    (LogCheck.read content).1 = LogPiece.original log ∧
      (LogCheck.read content').1 = LogPiece.extended log ∧
      ∃ r, (check.runOn false content).outcome = .ok r ∧
        r.issues.map (·.entryIndex) = [some 0] ∧
        (check.runOn false content').outcome =
          .ok ((r.moved 1).rehashed (Sha256.label content')) := by
  intro check log content content'
  have hextended : LogCheck.read content' = (LogPiece.extended log, none) :=
    LogCheck.read_written storable_earlyExecution
  have horiginal : LogCheck.read content = (LogPiece.original log, none) :=
    LogCheck.read_written fun entry h =>
      storable_earlyExecution entry (List.mem_cons_of_mem _ h)
  have hd := decisive_execution (check.session false) rfl
  have hu : (check.session false).Undecided [] := trivial
  obtain ⟨text, hrun⟩ := LogCheck.runOn_of_decisive hu hd
  have hplain := (hrun content [] (congrArg Prod.fst horiginal)).1.trans rfl
  obtain ⟨-, -, -, -, -, hmoved⟩ := takeAll_extended check log
  have hfull := hmoved content content' (congrArg Prod.fst horiginal) (congrArg Prod.fst hextended)
    (.inr ⟨congrArg Prod.snd horiginal, congrArg Prod.snd hextended⟩)
  rw [hplain] at hfull
  exact ⟨congrArg Prod.fst horiginal, congrArg Prod.fst hextended, _, hplain, rfl, hfull⟩

end CallTrace
