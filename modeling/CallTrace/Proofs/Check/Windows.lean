import CallTrace.Proofs.Check.Completion
import CallTrace.Proofs.Check.Insertion

/-!
# Uploads between the lookup and the execution

Once the blob was looked up, any uploads may follow, and of these a check asks only
whether one is of the blob. So uploads can be put in another order, repeated, added
and left out: as long as the answer stays the same, so does what the check comes to.
A check that passes goes on to do so even if there was no such upload before.
-/

namespace CallTrace

/-- A call that may stand before an execution: an upload or one that does not matter. -/
def LogEntry.Tolerated (entry : LogEntry) : Prop :=
  entry.Plays .upload ∨ isUnrelated entry.methodName = true

/-- Checks come to the same end at the same stage and in the same words. -/
structure Taken.Agrees (t t' : Taken) : Prop where
  /-- The last entries led to the same. -/
  outcome : t'.outcome = t.outcome
  /-- The sessions stand at the same stage. -/
  stage : t'.session.stage = t.session.stage
  /-- The sessions said the same. -/
  printed : t'.printed = t.printed

theorem Taken.agrees_counting (t : Taken) (m n : Nat) : (t.counting m).Agrees (t.counting n) :=
  ⟨rfl, rfl, rfl⟩

namespace Stage

variable {target : Target} {stage : Stage} {entry : LogEntry} {before window : List LogEntry}

/-- Nothing comes behind the wait for an execution. -/
theorem eq_awaitExecute_of_rank (h : rank .awaitExecute ≤ stage.rank) : stage = .awaitExecute := by
  cases stage with
  | awaitLookup => exact absurd h (by decide)
  | awaitUpload => exact absurd h (by decide)
  | awaitExecute => rfl

variable [KnownTypes]

/-- Once the lookup was found, uploads let a check go on and do not take it back. -/
theorem goOn_of_tolerated (hs : 0 < stage.rank) (h : entry.Tolerated) (target : Target) :
    ∃ a m, stage.advance entry target = .ok a ∧ a.ruling = .goOn m ∧
      stage.rank ≤ a.stage.rank := by
  rcases h with hp | hu
  · cases stage with
    | awaitLookup => exact absurd hs (by decide)
    | awaitUpload =>
      by_cases hl : entry.Uploads target
      · exact ⟨_, _, advance_of_uploads hl, rfl, rank_le_next .awaitUpload⟩
      · exact ⟨_, _, advance_of_other_upload hp hl, rfl, le_refl _⟩
    | awaitExecute => exact ⟨_, _, advance_of_late_upload hp target, rfl, le_refl _⟩
  · exact ⟨_, _, advance_of_unrelated stage hu target, rfl, le_refl _⟩

/-- Any other call ends the wait for an upload. -/
theorem advance_of_not_tolerated (h : ¬ entry.Tolerated) (target : Target) :
    ∃ v, awaitUpload.advance entry target = .ok (.violation .awaitUpload v) := by
  obtain ⟨hnone, hrelated⟩ := not_or.mp h
  obtain ⟨role, hp⟩ := exists_plays_of_related (Bool.eq_false_iff.mpr hrelated)
  have hrole : role ≠ .upload := by
    rintro rfl
    exact hnone hp
  exact advance_of_no_upload hp hrole target

omit [KnownTypes] in
/-- Behind the lookup, an upload of the blob is told of by the wait for an execution. -/
theorem tells_append_of_uploads (h : awaitUpload.Tells target before)
    (hw : ∃ e ∈ window, e.Uploads target) : awaitExecute.Tells target (before ++ window) := by
  obtain ⟨first, lookup, rest, rfl, hf, hl, -⟩ := h
  obtain ⟨upload, hm, hu⟩ := hw
  exact ⟨first, lookup, rest ++ window, List.append_assoc .., hf, hl,
    upload, List.mem_append_right _ hm, hu⟩

omit [KnownTypes] in
/-- Behind the lookup, calls that are no uploads of the blob leave a check waiting for one. -/
theorem tells_append_of_not_uploads (h : awaitUpload.Tells target before)
    (hw : ¬ ∃ e ∈ window, e.Uploads target) : awaitUpload.Tells target (before ++ window) := by
  obtain ⟨first, lookup, rest, rfl, hf, hl, hr⟩ := h
  refine ⟨first, lookup, rest ++ window, List.append_assoc .., hf, hl, fun e hm hu => ?_⟩
  rcases List.mem_append.mp hm with hm | hm
  · exact hr e hm hu
  · exact hw ⟨e, hm, hu⟩

end Stage

namespace Session

variable {s : Session} {entry : LogEntry} {entries before window : List LogEntry}

/-- The session at another stage. -/
def standingAt (s : Session) (stage : Stage) : Session := { s with stage := stage }

variable [KnownTypes]

/-- Entries leave the check open where the first ones do and then the rest. -/
theorem undecided_append_iff : s.Undecided (before ++ entries) ↔
    s.Undecided before ∧ (s.afterTaking before).Undecided entries := by
  induction before generalizing s with
  | nil => exact (and_iff_right trivial).symm
  | cons entry before ih =>
    rw [List.cons_append, Undecided, Undecided, ih, and_assoc]
    rfl

/-- A quiet session goes on from the stage that an entry led to. -/
theorem take_of_goOn {a : Advance} {m : Option Milestone} (hq : s.verbose = false)
    (ha : s.stage.advance entry s.target = .ok a) (hm : a.ruling = .goOn m) :
    s.take entry = ⟨.ok a, (s.standingAt a.stage).counting 1, ""⟩ := by
  have htake := take_of_shown (announce_of_quiet hq entry)
  rw [ha] at htake
  have hprinted := printed_take_of_goesOn hq ⟨a, m, congrArg Taken.outcome htake, hm⟩
  rw [htake] at hprinted ⊢
  exact congrArg (Taken.mk _ _) hprinted

/-- What a session makes of entries does not depend on what it has counted. -/
theorem takeAll_counting (s : Session) (count : Nat) (entries : List LogEntry) :
    ((s.counting count).takeAll entries).1 = (s.takeAll entries).1.counting count := by
  induction entries generalizing s with
  | nil => rfl
  | cons entry entries ih =>
    by_cases hgo : (s.take entry).GoesOn
    · have hgo' := (s.goesOn_counting_iff count entry).mpr hgo
      rw [takeAll_of_goesOn hgo', takeAll_of_goesOn hgo, take_counting]
      exact congrArg (Taken.after _) (ih (s.take entry).session)
    · have hgo' := (s.goesOn_counting_iff count entry).not.mpr hgo
      rw [takeAll_of_decisive hgo', takeAll_of_decisive hgo, take_counting]

/-- Of entries that leave the check open, only the stage that they lead to matters. -/
theorem takeAll_behind (hq : s.verbose = false) (h : s.Undecided before)
    (entries : List LogEntry) :
    (s.takeAll (before ++ entries)).1 =
      ((s.standingAt (s.afterTaking before).stage).takeAll entries).1.counting before.length := by
  obtain ⟨stage, hs⟩ := s.exists_stage_afterTaking before
  rw [takeAll_append_of_quiet hq h, ← takeAll_counting, hs]
  rfl

/-- Once the lookup was found, uploads leave the check open. -/
theorem undecided_of_tolerated (hq : s.verbose = false) (hs : 0 < s.stage.rank)
    (h : ∀ e ∈ window, e.Tolerated) : s.Undecided window := by
  induction window generalizing s with
  | nil => trivial
  | cons entry window ih =>
    obtain ⟨hfirst, hrest⟩ := List.forall_mem_cons.mp h
    obtain ⟨a, m, ha, hm, -⟩ := Stage.goOn_of_tolerated hs hfirst s.target
    have hgo : (s.take entry).GoesOn := ⟨a, m, congrArg Taken.outcome (take_of_goOn hq ha hm), hm⟩
    have hrank := Nat.lt_of_lt_of_le hs (s.rank_take entry).1
    exact ⟨hgo, ih ((s.verbose_take entry).trans hq) hrank hrest⟩

/-- Behind the lookup and uploads a check goes on from the stage that tells of them. -/
theorem takeAll_window {stage : Stage} (hq : s.verbose = false) (hs : s.stage = .awaitLookup)
    (hu : s.Undecided before) (hlast : (s.afterTaking before).stage = .awaitUpload)
    (hw : ∀ e ∈ window, e.Tolerated) (ht : stage.Tells s.target (before ++ window))
    (after : List LogEntry) :
    (s.takeAll (before ++ window ++ after)).1 =
      ((s.standingAt stage).takeAll after).1.counting (before ++ window).length := by
  have hrank : 0 < (s.afterTaking before).stage.rank := by
    rw [hlast]
    decide
  have hwindow := undecided_of_tolerated ((s.verbose_afterTaking before).trans hq) hrank hw
  rw [← stage_of_tells hq hs ht]
  exact takeAll_behind hq (undecided_append_iff.mpr ⟨hu, hwindow⟩) after

/-- A check that passes with the wait for an upload passes in the same way without it. -/
theorem takeAll_of_passes (hq : s.verbose = false) (hs : s.stage = .awaitUpload)
    (h : Passes (s.takeAll entries).1.outcome) :
    ((s.standingAt .awaitExecute).takeAll entries).1 = (s.takeAll entries).1 := by
  induction entries generalizing s with
  | nil => exact absurd h (not_passes_ranOut _)
  | cons entry entries ih =>
    by_cases ht : entry.Tolerated
    · obtain ⟨a, m, ha, hm, hrank⟩ :=
        Stage.goOn_of_tolerated (by decide : 0 < Stage.awaitUpload.rank) ht s.target
      obtain ⟨a', m', ha', hm', hrank'⟩ :=
        Stage.goOn_of_tolerated (by decide : 0 < Stage.awaitExecute.rank) ht s.target
      have hstage' := Stage.eq_awaitExecute_of_rank hrank'
      have htake := take_of_goOn hq (hs ▸ ha) hm
      have htake' := take_of_goOn (s := s.standingAt .awaitExecute) hq ha' hm'
      rw [takeAll_of_goOn (congrArg Taken.outcome htake) hm, htake] at h ⊢
      rw [takeAll_of_goOn (congrArg Taken.outcome htake') hm', htake', hstage']
      refine congrArg (Taken.after "") ?_
      -- The two sessions meet where the upload of the blob comes.
      cases hc : a.stage with
      | awaitLookup =>
        rw [hc] at hrank
        exact absurd hrank (by decide)
      | awaitUpload =>
        rw [hc] at h
        exact ih (s := (s.standingAt .awaitUpload).counting 1) hq rfl h
      | awaitExecute => rfl
    · obtain ⟨v, hv⟩ := Stage.advance_of_not_tolerated ht s.target
      have htake := take_of_shown (announce_of_quiet hq entry)
      rw [hs, hv] at htake
      rw [takeAll_of_final (congrArg Taken.outcome htake) rfl, htake] at h
      exact absurd h (not_passes_violation _ _)

end Session

section

variable [KnownTypes]

/--
Of the uploads between the lookup and the execution, only whether one is of the blob matters. A
quiet check that waits for an upload after some entries comes to the same with any uploads behind
these, among calls that do not matter, as with any others, if the blob is among both or among
neither. And where it passes, it passes with any uploads in their place that have the blob if they
had it: with the same in another order, repeated, or with others added.
-/
theorem takeAll_windows (target : Target) {before window window' after : List LogEntry}
    (hbefore : ({ target := target, verbose := false } : Session).Undecided before)
    (hstage : (({ target := target, verbose := false } : Session).afterTaking before).stage =
      .awaitUpload)
    (hw : ∀ e ∈ window, e.Tolerated) (hw' : ∀ e ∈ window', e.Tolerated) :
    let taken (window : List LogEntry) :=
      (({ target := target, verbose := false } : Session).takeAll (before ++ window ++ after)).1
    (((∃ e ∈ window, e.Uploads target) ↔ ∃ e ∈ window', e.Uploads target) →
      (taken window).Agrees (taken window')) ∧
    (((∃ e ∈ window, e.Uploads target) → ∃ e ∈ window', e.Uploads target) →
      Passes (taken window).outcome → (taken window).Agrees (taken window')) := by
  intro taken
  let start : Session := { target := target, verbose := false }
  have htells : Stage.awaitUpload.Tells target before :=
    (Session.stage_eq_iff (s := start) rfl rfl).mp hstage
  have hbehind : ∀ {w stage}, (∀ e ∈ w, e.Tolerated) → stage.Tells target (before ++ w) →
      taken w = ((start.standingAt stage).takeAll after).1.counting (before ++ w).length :=
    fun hw ht => Session.takeAll_window (s := start) rfl rfl hbefore hstage hw ht after
  have hsame : ((∃ e ∈ window, e.Uploads target) ↔ ∃ e ∈ window', e.Uploads target) →
      (taken window).Agrees (taken window') := by
    intro hiff
    by_cases hu : ∃ e ∈ window, e.Uploads target
    · rw [hbehind hw (Stage.tells_append_of_uploads htells hu),
        hbehind hw' (Stage.tells_append_of_uploads htells (hiff.mp hu))]
      exact Taken.agrees_counting _ _ _
    · rw [hbehind hw (Stage.tells_append_of_not_uploads htells hu),
        hbehind hw' (Stage.tells_append_of_not_uploads htells (hiff.not.mp hu))]
      exact Taken.agrees_counting _ _ _
  refine ⟨hsame, fun himp hpass => ?_⟩
  by_cases hu : ∃ e ∈ window, e.Uploads target
  · exact hsame ⟨himp, fun _ => hu⟩
  by_cases hu' : ∃ e ∈ window', e.Uploads target
  · -- Only behind the second uploads is the wait for the blob over, and the first check passes.
    have hfirst := hbehind hw (Stage.tells_append_of_not_uploads htells hu)
    rw [hfirst] at hpass ⊢
    rw [hbehind hw' (Stage.tells_append_of_uploads htells hu')]
    have hpasses := Session.takeAll_of_passes (s := start.standingAt .awaitUpload) rfl rfl hpass
    change (Session.takeAll (start.standingAt .awaitExecute) after).1 = _ at hpasses
    rw [hpasses]
    exact Taken.agrees_counting _ _ _
  · exact hsame ⟨fun h => absurd h hu, fun h => absurd h hu'⟩

end

attribute [local instance] KnownTypes.ofLogs in
theorem takeAll_windows_repeated :
    let target : Target := ⟨"h", 1, by decide⟩
    let start : Session := { target := target, verbose := false }
    let window := [target.upload]
    let window' :=
      [.ofUpload ["uploads/g/2"], target.upload, { methodName := "/Read" }, target.upload]
    let taken (window : List LogEntry) :=
      (start.takeAll ([target.lookup] ++ window ++ [target.execution])).1
    start.Undecided [target.lookup] ∧ (start.afterTaking [target.lookup]).stage = .awaitUpload ∧
      (∀ e ∈ window, e.Tolerated) ∧ (∀ e ∈ window', e.Tolerated) ∧
      Passes (taken window).outcome ∧ Passes (taken window').outcome := by
  intro target start window window' taken
  have hlookup := Stage.advance_of_looksUp
    (show target.lookup.LooksUp target from Target.looksUp_lookup (by decide))
  have htake := Session.take_of_goOn (s := start) rfl hlookup rfl
  have hbefore : start.Undecided [target.lookup] :=
    ⟨⟨_, _, congrArg Taken.outcome htake, rfl⟩, trivial⟩
  have hstage : (start.afterTaking [target.lookup]).stage = .awaitUpload :=
    congrArg (fun t : Taken => t.session.stage) htake
  have hupload (names : List String) : (LogEntry.ofUpload names).Tolerated :=
    .inl (LogEntry.plays_ofUpload names)
  have hread : LogEntry.Tolerated { methodName := "/Read" } := .inr (by decide)
  have hw : ∀ e ∈ window, e.Tolerated := List.forall_mem_singleton.mpr (hupload _)
  have hw' : ∀ e ∈ window', e.Tolerated := by
    simp only [window', List.forall_mem_cons, List.not_mem_nil, false_implies, implies_true,
      and_true]
    exact ⟨hupload _, hupload _, hread, hupload _⟩
  have hpass : Passes (taken window).outcome := by
    have hquiet := (Session.takeAll_of_quiet (s := start) rfl
      ([target.lookup] ++ window ++ [target.execution])).1
    rw [hquiet]
    exact Stage.passes_completion (by decide) .awaitLookup
  have hmore : (∃ e ∈ window, e.Uploads target) → ∃ e ∈ window', e.Uploads target :=
    fun _ => ⟨target.upload, by simp [window'], Target.uploads_upload target⟩
  have hagrees : (taken window).Agrees (taken window') :=
    (takeAll_windows target hbefore hstage hw hw').2 hmore hpass
  refine ⟨hbefore, hstage, hw, hw', hpass, ?_⟩
  obtain ⟨a, ha, hv⟩ := hpass
  exact ⟨a, hagrees.outcome.trans ha, hv⟩

end CallTrace
