import CallTrace.Proofs.Check.Exhibits
import CallTrace.Proofs.Check.Histories
import CallTrace.Proofs.Check.Transcripts

/-!
# The blocks of a verbose check

A verbose check closes the block of every entry with a ruler, and so it does with every milestone.
The hash of the blob is the only text of a milestone that is not fixed. So a check shows more
rulers than it draws just where the transcript of an entry holds one.
-/

namespace CallTrace

/-- What is worth telling of the entry that was taken. -/
def Taken.progress? (t : Taken) : Option String := t.outcome.toOption.bind Advance.progress?

/-- What is worth telling of entries that are taken one by one. -/
def Session.milestones [KnownTypes] : Session → List LogEntry → List String
  | _, [] => []
  | s, entry :: entries =>
    (s.take entry).progress?.toList ++ (s.take entry).session.milestones entries

section Lines

open Text

theorem toList_ruler : ruler.toList = rulerLine ++ ['\n'] := by decide

theorem addsRulers_ruler : AddsRulers ruler 1 := by
  intro ys
  have hone : rulers rulerLine = 1 := by
    rw [rulers, segments_of_not_mem newline_not_mem_rulerLine, List.count_singleton_self]
  rw [toList_ruler, List.append_assoc, List.singleton_append, rulers_append_newline, hone]

end Lines

/-! ### What is told of an entry -/

/-- The milestone is one of the blob with the hash, or of no blob. -/
def Milestone.IsOf (hash : String) : Milestone → Prop
  | .lookupFound h => h = hash
  | .otherUpload => True
  | .uploadFound h => h = hash
  | .outputFound h => h = hash

/-- The words for a milestone fill a line. -/
theorem Milestone.addsRulers_text {m : Milestone} {hash : String} (h : m.IsOf hash)
    (hh : '\n' ∉ hash.toList) : Text.AddsRulers (m.text ++ "\n") 0 := by
  refine Text.addsRulers_line (c := 'F') ?_ ?_ (by decide)
  · cases m <;> cases h <;> unfold text <;> simp [hh]
  · cases m <;> unfold text <;> simp

section

variable [KnownTypes]

/--
What is told of an entry is a milestone of the blob, and notes on it are lines on what one of its
operations came to.
-/
structure Advance.IsToldOf (a : Advance) (entry : LogEntry) (target : Target) : Prop where
  /-- There is nothing to tell, or a milestone of the blob. -/
  progress : a.progress? = none ∨
    ∃ m : Milestone, m.IsOf target.hash ∧ a.progress? = some m.text
  /-- There is nothing to note, or what an execution came to. -/
  notes : a.notes = [] ∨ ∃ op ∈ entry.executions, ∃ c,
    op.conclude .executeResponse = .ok c ∧ c.lines "ExecuteResponse" "Operation" = .ok a.notes

section Told

variable {entry : LogEntry} {target : Target} {stage : Stage} {a : Advance}

theorem Advance.isToldOf_silent (stage : Stage) :
    ({ stage := stage, ruling := .goOn none } : Advance).IsToldOf entry target :=
  ⟨.inl rfl, .inl rfl⟩

theorem Advance.isToldOf_milestone (stage : Stage) {m : Milestone} (h : m.IsOf target.hash) :
    ({ stage := stage, ruling := .goOn (some m) } : Advance).IsToldOf entry target :=
  ⟨.inr ⟨m, h, rfl⟩, .inl rfl⟩

theorem Advance.isToldOf_violation (stage : Stage) (v : Violation) :
    (Advance.violation stage v).IsToldOf entry target :=
  ⟨.inl rfl, .inl rfl⟩

namespace Stage

theorem onLookup_isToldOf (role : Role) : (onLookup entry role target).IsToldOf entry target := by
  unfold onLookup
  split
  · split
    · exact Advance.isToldOf_milestone _ rfl
    · exact Advance.isToldOf_violation _ _
  · exact Advance.isToldOf_violation _ _

theorem onUpload_isToldOf (role : Role) : (onUpload entry role target).IsToldOf entry target := by
  unfold onUpload
  split
  · split
    · exact Advance.isToldOf_milestone _ rfl
    · exact Advance.isToldOf_milestone _ trivial
  · exact Advance.isToldOf_violation _ _

omit [KnownTypes] in
/-- A pass is told of, and any other end of an execution is not. -/
theorem progress_of_findingOf (target : Target) (c : Conclusion .executeResponse)
    (notes : List String) :
    let a : Advance := ⟨.awaitExecute, .final (findingOf target c), notes⟩
    a.progress? = none ∨ ∃ m : Milestone, m.IsOf target.hash ∧ a.progress? = some m.text := by
  intro a
  rcases findingOf_cases target c with hf | ⟨v, hf, -⟩
  · exact .inr ⟨.outputFound target.hash, rfl, by simp [a, Advance.progress?, hf]⟩
  · exact .inl (by simp [a, Advance.progress?, hf])

theorem onExecution_isToldOf (h : onExecution entry target = .ok a) :
    a.IsToldOf entry target := by
  unfold onExecution at h
  split at h
  · cases h
    exact Advance.isToldOf_violation _ _
  · next op hop =>
    split at h
    · cases h
    · next c hc =>
      split at h
      · cases h
      · next notes hl =>
        cases h
        exact ⟨progress_of_findingOf target c notes,
          .inr ⟨op, List.mem_of_find?_eq_some hop, c, hc, hl⟩⟩

theorem onExecute_isToldOf {role : Role} (h : onExecute entry role target = .ok a) :
    a.IsToldOf entry target := by
  cases role with
  | upload =>
    cases h
    exact Advance.isToldOf_silent _
  | execution => exact onExecution_isToldOf h
  | lookup =>
    cases h
    exact Advance.isToldOf_violation _ _

/-- No entry leads to anything else that is told or noted. -/
theorem advance_isToldOf (h : stage.advance entry target = .ok a) : a.IsToldOf entry target := by
  cases hu : isUnrelated entry.methodName with
  | true =>
    cases (advance_of_unrelated stage hu target).symm.trans h
    exact Advance.isToldOf_silent stage
  | false =>
    obtain ⟨role, hp⟩ := exists_plays_of_related hu
    rw [advance_of_plays stage hp] at h
    cases stage with
    | awaitLookup =>
      cases h
      exact onLookup_isToldOf role
    | awaitUpload =>
      cases h
      exact onUpload_isToldOf role
    | awaitExecute => exact onExecute_isToldOf h

end Stage

end Told

namespace Session

open Text

variable {s : Session} {entry : LogEntry} {entries : List LogEntry} {a : Advance}

/-- The notes on a clear entry bring along no ruler. -/
theorem addsRulers_noteLines (h : s.stage.advance entry s.target = .ok a) :
    ∃ n, AddsRulers (s.noteLines a) n ∧ (entry.Clear → n = 0) := by
  rw [noteLines_eq]
  cases s.verbose with
  | false => exact ⟨0, addsRulers_empty, fun _ => rfl⟩
  | true =>
    rcases (Stage.advance_isToldOf h).notes with hn | ⟨op, hop, c, hc, hl⟩
    · rw [hn]
      exact ⟨0, addsRulers_empty, fun _ => rfl⟩
    · obtain ⟨n, hadds, hn⟩ := Conclusion.clearIff_lines (by decide) (by decide) hl
      obtain ⟨ops, hs, hmem⟩ := LogEntry.exists_streamed_of_mem_executions hop
      exact ⟨n, hadds, fun hclear => hn.mpr (hclear.of_conclude hs hmem hc)⟩

/-- A milestone is closed with a ruler. -/
theorem addsRulers_progressLines (hv : s.verbose = true) (hh : '\n' ∉ s.target.hash.toList)
    (h : s.stage.advance entry s.target = .ok a) :
    AddsRulers (s.progressLines a) a.progress?.toList.length := by
  rw [progressLines_eq]
  rcases (Stage.advance_isToldOf h).progress with hp | ⟨m, hm, hp⟩
  · rw [hp]
    exact addsRulers_empty
  · have hlines := (m.addsRulers_text hm hh).append addsRulers_ruler
    simpa [hp, hv] using hlines

/-- The block of an entry is closed with a ruler, and has others just where a URL holds one. -/
theorem addsRulers_take (hv : s.verbose = true) (hh : '\n' ∉ s.target.hash.toList)
    (h : (s.take entry).outcome = .ok a) :
    ∃ n, AddsRulers (s.take entry).printed (n + (1 + (s.take entry).progress?.toList.length)) ∧
      (n = 0 ↔ entry.Clear) := by
  have ha := advance_of_take h
  cases hs : s.announce entry with
  | error e =>
    rw [take_of_unshown hs] at h
    cases h
  | ok shown =>
    have htake := take_of_shown hs
    rw [ha] at htake
    rw [announce_eq, if_pos hv] at hs
    cases ht : entry.transcript with
    | error e =>
      rw [ht] at hs
      cases hs
    | ok text =>
      rw [ht] at hs
      cases hs
      obtain ⟨m, hm, hclear⟩ := LogEntry.clearIff_transcript ht
      obtain ⟨n, hn, hnotes⟩ := addsRulers_noteLines ha
      have hall := ((hm.append addsRulers_ruler).append hn).append
        (addsRulers_progressLines hv hh ha)
      refine ⟨m + n, ?_, ?_⟩
      · rw [htake]
        have hcount : m + n + (1 + a.progress?.toList.length) =
            m + 1 + n + a.progress?.toList.length := by omega
        change AddsRulers _ (m + n + (1 + a.progress?.toList.length))
        rw [hcount]
        exact hall
      · rw [Nat.add_eq_zero_iff, hclear]
        exact and_iff_left_of_imp hnotes

/-- A run draws a ruler for every entry and milestone, and shows others where a URL holds one. -/
theorem addsRulers_takeAll (hv : s.verbose = true) (hh : '\n' ∉ s.target.hash.toList)
    (h : (s.takeAll entries).1.outcome = .ok a) :
    ∃ taken left n, entries = taken ++ left ∧
      (s.takeAll entries).1.session.entriesRead = s.entriesRead + taken.length ∧
      AddsRulers (s.takeAll entries).1.printed
        (n + (taken.length + (s.milestones taken).length)) ∧
      (n = 0 ↔ ∀ entry ∈ taken, entry.Clear) := by
  induction entries generalizing s with
  | nil => exact ⟨[], [], 0, rfl, rfl, addsRulers_empty, by simp⟩
  | cons entry entries ih =>
    by_cases hgo : (s.take entry).GoesOn
    · have hgo' := hgo
      obtain ⟨b, m, hb, -⟩ := hgo'
      obtain ⟨k, hk, hclear⟩ := addsRulers_take hv hh hb
      rw [takeAll_of_goesOn hgo] at h ⊢
      have hv' : (s.take entry).session.verbose = true := (s.verbose_afterTaking [entry]).trans hv
      have ht : (s.take entry).session.target = s.target := s.target_afterTaking [entry]
      obtain ⟨taken, left, n, rfl, hread, hn, hall⟩ := ih hv' (ht ▸ hh) h
      refine ⟨entry :: taken, left, k + n, rfl, ?_, ?_, ?_⟩
      · rw [List.length_cons]
        have hone := s.entriesRead_take entry
        change (takeAll _ _).1.session.entriesRead = _
        omega
      · have hcount : k + n + ((entry :: taken).length + (s.milestones (entry :: taken)).length) =
            k + (1 + (s.take entry).progress?.toList.length) +
              (n + (taken.length + ((s.take entry).session.milestones taken).length)) := by
          rw [milestones, List.length_append, List.length_cons]
          omega
        rw [hcount]
        exact hk.append hn
      · rw [Nat.add_eq_zero_iff, hclear, hall, List.forall_mem_cons]
    · rw [takeAll_of_decisive hgo] at h ⊢
      obtain ⟨n, hn, hclear⟩ := addsRulers_take hv hh h
      refine ⟨[entry], entries, n, rfl, s.entriesRead_take entry, ?_, by simpa using hclear⟩
      simpa [milestones] using hn

end Session

/-- A sound entry leads where the stage says. -/
theorem Session.outcome_take_of_sound (s : Session) {entry : LogEntry} (h : entry.Sound) :
    (s.take entry).outcome = s.stage.advance entry s.target := by
  obtain ⟨text, ht⟩ := s.announce_of_sound h
  rw [take_of_shown ht]
  cases s.stage.advance entry s.target <;> rfl

/-- A check of one sound entry that does not end it runs out, and tells what there is of the
entry. -/
theorem Session.takeAll_of_one {s : Session} {entry : LogEntry} {a : Advance} {m : Option Milestone}
    (hs : entry.Sound) (ha : s.stage.advance entry s.target = .ok a) (hm : a.ruling = .goOn m) :
    (s.takeAll [entry]).1.outcome = .ok a.stage.ranOut ∧
      (s.takeAll [entry]).1.session.entriesRead = s.entriesRead + 1 ∧
      s.milestones [entry] = (m.map Milestone.text).toList := by
  have htake := (s.outcome_take_of_sound hs).trans ha
  have hgo : (s.take entry).GoesOn := ⟨a, m, htake, hm⟩
  have hstage : (s.take entry).session.stage = a.stage := by
    obtain ⟨text, ht⟩ := s.announce_of_sound hs
    rw [take_of_shown ht, ha]
  rw [takeAll_of_goesOn hgo]
  refine ⟨?_, s.entriesRead_take entry, ?_⟩
  · rw [← hstage]
    rfl
  · rw [milestones, milestones, List.append_nil, Taken.progress?, htake]
    simp [Except.toOption, Advance.progress?, hm]

/--
A verbose check that comes to something shows a ruler for every entry that it takes and one for
every milestone, and it shows no other just where no URL that stands as it is in what is shown of
these entries holds a ruler.
-/
theorem rulers_takeAll (target : Target) (hh : '\n' ∉ target.hash.toList) {entries : List LogEntry}
    {a : Advance}
    (h : (({ target := target, verbose := true } : Session).takeAll entries).1.outcome = .ok a) :
    let start : Session := { target := target, verbose := true }
    let last := (start.takeAll entries).1
    let fed := entries.take last.session.entriesRead
    let due := last.session.entriesRead + (start.milestones fed).length
    let shown := (Text.segments '\n' last.printed.toList).count (List.replicate 57 '-')
    due ≤ shown ∧ (shown = due ↔
      ∀ entry ∈ fed, ∀ url, entry.Shows url → ¬ Text.HoldsRuler url.toList) := by
  intro start last fed due shown
  obtain ⟨taken, left, n, rfl, hread, hadds, hclear⟩ :=
    Session.addsRulers_takeAll (s := start) rfl hh h
  have hcount : last.session.entriesRead = taken.length := hread.trans (Nat.zero_add _)
  have hfed : fed = taken := by
    simp only [fed, hcount, List.take_left]
  have hshown : shown = n + due := by
    simp only [due, hfed, hcount]
    exact hadds.rulers_eq
  refine ⟨by omega, ?_⟩
  rw [hfed]
  have hzero : shown = due ↔ n = 0 := by omega
  exact hzero.trans hclear

end

attribute [local instance] KnownTypes.ofLogs in
theorem rulers_takeAll_lookup :
    let target : Target := ⟨"h", 1, by decide⟩
    let last := (({ target := target, verbose := true } : Session).takeAll [target.lookup]).1
    '\n' ∉ target.hash.toList ∧ (∃ a, last.outcome = .ok a) ∧
      (Text.segments '\n' last.printed.toList).count (List.replicate 57 '-') = 2 := by
  intro target last
  have hh : '\n' ∉ target.hash.toList := by decide
  have hsound : target.lookup.Sound := List.forall_mem_nil _
  have hlookup := Stage.advance_of_looksUp
    (show target.lookup.LooksUp target from Target.looksUp_lookup (by decide))
  obtain ⟨houtcome, hread, htold⟩ := Session.takeAll_of_one
    (s := { target := target, verbose := true }) hsound hlookup rfl
  have hshows : ∀ url, ¬ target.lookup.Shows url := by
    rintro url (⟨a, ha, -⟩ | ⟨name, ops, hs, -⟩)
    · cases ha
    · cases hs
  obtain ⟨-, hiff⟩ := rulers_takeAll target hh houtcome
  rw [hread] at hiff
  have hall := hiff.mpr fun entry hm url hurl => by
    cases List.mem_singleton.mp hm
    exact absurd hurl (hshows url)
  refine ⟨hh, ⟨_, houtcome⟩, hall.trans ?_⟩
  change 1 + (Session.milestones _ [target.lookup]).length = 2
  rw [htold]
  rfl

/-- A call that waits for an execution, with a response under a URL that holds a ruler. -/
def LogEntry.ruled : LogEntry :=
  { methodName := "/Execution/WaitExecution",
    details := some { call := some (.waitExecution { responses :=
      [{ done := true, result := some (.response { typeUrl := "a\n" ++ ruler ++ "b" }) }] }) } }

attribute [local instance] KnownTypes.ofLogs in
/-- A URL can close a block that no entry and no milestone closes. -/
theorem rulers_takeAll_ruled :
    let start : Session := { target := ⟨"h", 1, by decide⟩, verbose := true }
    let last := (start.takeAll [.ruled]).1
    (∃ a, last.outcome = .ok a) ∧ last.session.entriesRead = 1 ∧ start.milestones [.ruled] = [] ∧
      1 < (Text.segments '\n' last.printed.toList).count (List.replicate 57 '-') := by
  intro start last
  have hsound : LogEntry.ruled.Sound :=
    List.forall_mem_singleton.mpr (.foreign (by decide))
  have hunrelated : isUnrelated LogEntry.ruled.methodName = true := by decide
  have hadvance := start.stage.advance_of_unrelated hunrelated start.target
  obtain ⟨houtcome, hread, htold⟩ := Session.takeAll_of_one hsound hadvance rfl
  obtain ⟨taken, left, n, hsplit, hcount, hadds, hclear⟩ :=
    Session.addsRulers_takeAll (s := start) rfl (by decide) houtcome
  have htaken : taken = [.ruled] := by
    have hone : taken.length = 1 := by omega
    have hprefix : taken <+: [LogEntry.ruled] := ⟨left, hsplit.symm⟩
    exact hprefix.eq_of_length hone
  have hn : n ≠ 0 := by
    rw [Ne, hclear, htaken, List.forall_mem_singleton]
    intro h
    have hshows : LogEntry.ruled.Shows ("a\n" ++ ruler ++ "b") :=
      .inr ⟨"WaitExecution", _, rfl, _, List.mem_singleton_self _, rfl⟩
    exact h _ hshows ⟨['a'], ['b'], by decide⟩
  refine ⟨⟨_, houtcome⟩, hread, htold, ?_⟩
  have hrulers := hadds.rulers_eq
  rw [htaken, htold] at hrulers
  change 1 < Text.rulers last.printed.toList
  rw [hrulers]
  change 1 < n + (1 + 0)
  omega

end CallTrace
