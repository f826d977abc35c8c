import CallTrace.Proofs.Check.Folding

/-!
# What a stage tells of the calls before it

A session may be given entries after it has come to a verdict or to an entry that
leads nowhere, and it may be given them one by one or many at a time. Whatever
came of them, its stage tells which of the awaited calls were among them: none, a
lookup of the blob, or such a lookup and an upload of the blob behind it.
-/

namespace CallTrace

namespace Stage

/-- How many of the awaited calls lie behind a stage. -/
def rank : Stage → Nat
  | .awaitLookup => 0
  | .awaitUpload => 1
  | .awaitExecute => 2

/-- The stage that the awaited call leads to; the wait for an execution is the last one. -/
def next : Stage → Stage
  | .awaitLookup => .awaitUpload
  | .awaitUpload => .awaitExecute
  | .awaitExecute => .awaitExecute

theorem rank_le_next (stage : Stage) : stage.rank ≤ stage.next.rank := by
  cases stage <;> decide

theorem rank_next_le (stage : Stage) : stage.next.rank ≤ stage.rank + 1 := by
  cases stage <;> decide

end Stage

/-- The call is one that takes a check from the stage to the next one. -/
def LogEntry.Leads (entry : LogEntry) (target : Target) : Stage → Prop
  | .awaitLookup => entry.LooksUp target
  | .awaitUpload => entry.Uploads target
  | .awaitExecute => False

namespace Stage

variable {entry : LogEntry} {target : Target} {stage : Stage}

variable [KnownTypes]

/-- The awaited call leads to the next stage. -/
theorem advance_of_leads (h : entry.Leads target stage) :
    ∃ m, stage.advance entry target = .ok { stage := stage.next, ruling := .goOn m } := by
  cases stage with
  | awaitLookup => exact ⟨_, advance_of_looksUp h⟩
  | awaitUpload => exact ⟨_, advance_of_uploads h⟩
  | awaitExecute => exact h.elim

/-- No other entry leads to another stage. -/
theorem stage_of_advance (h : ¬ entry.Leads target stage) {a : Advance}
    (ha : stage.advance entry target = .ok a) : a.stage = stage := by
  cases hu : isUnrelated entry.methodName with
  | true =>
    cases (advance_of_unrelated stage hu target).symm.trans ha
    rfl
  | false =>
    obtain ⟨role, hp⟩ := exists_plays_of_related hu
    cases stage with
    | awaitLookup =>
      obtain ⟨v, hv⟩ := advance_of_not_looksUp hp h
      cases hv.symm.trans ha
      rfl
    | awaitUpload =>
      by_cases hr : role = .upload
      · subst hr
        cases (advance_of_other_upload hp h).symm.trans ha
        rfl
      · obtain ⟨v, hv⟩ := advance_of_no_upload hp hr target
        cases hv.symm.trans ha
        rfl
    | awaitExecute =>
      -- Only a call that lets the check go on could lead elsewhere, and an upload does not.
      rcases advance_cases ha with ⟨m, hm⟩ | ⟨hs, -⟩
      · cases role with
        | lookup =>
          obtain ⟨v, hv⟩ := advance_of_late_lookup hp target
          cases hv.symm.trans ha
          rfl
        | upload =>
          cases (advance_of_late_upload hp target).symm.trans ha
          rfl
        | execution =>
          obtain ⟨f, hf⟩ := final_of_onExecution ((advance_of_execution hp target).symm.trans ha)
          cases hm.symm.trans hf
      · exact hs

end Stage

namespace Session

variable {s : Session} {entry : LogEntry} {entries : List LogEntry}

variable [KnownTypes]

/-- A session stays at its stage, unless the entry is the awaited call and does not end the check.
-/
theorem stage_take (s : Session) (entry : LogEntry) :
    (s.take entry).session.stage = s.stage ∨
      entry.Leads s.target s.stage ∧ (s.take entry).GoesOn ∧
        (s.take entry).session.stage = s.stage.next := by
  cases hn : s.announce entry with
  | error e =>
    rw [take_of_unshown hn]
    exact .inl rfl
  | ok text =>
    rw [take_of_shown hn]
    by_cases hl : entry.Leads s.target s.stage
    · obtain ⟨m, hm⟩ := Stage.advance_of_leads hl
      rw [hm]
      exact .inr ⟨hl, ⟨_, m, rfl, rfl⟩, rfl⟩
    · cases ha : s.stage.advance entry s.target with
      | error e => exact .inl rfl
      | ok a => exact .inl (Stage.stage_of_advance hl ha)

theorem stage_take_of_not_leads (h : ¬ entry.Leads s.target s.stage) :
    (s.take entry).session.stage = s.stage :=
  (s.stage_take entry).resolve_right fun hl => h hl.1

/-- An entry that ends the check leaves the session at its stage. -/
theorem stage_take_of_decisive (h : ¬ (s.take entry).GoesOn) :
    (s.take entry).session.stage = s.stage :=
  (s.stage_take entry).resolve_right fun hl => h hl.2.1

/-- A quiet session follows the awaited call. -/
theorem stage_take_of_leads (hq : s.verbose = false) (h : entry.Leads s.target s.stage) :
    (s.take entry).session.stage = s.stage.next := by
  obtain ⟨m, hm⟩ := Stage.advance_of_leads h
  rw [take_of_shown (announce_of_quiet hq entry), hm]

theorem rank_take (s : Session) (entry : LogEntry) :
    s.stage.rank ≤ (s.take entry).session.stage.rank ∧
      (s.take entry).session.stage.rank ≤ s.stage.rank + 1 := by
  have hle := s.stage.rank_le_next
  have hnext := s.stage.rank_next_le
  rcases s.stage_take entry with hs | ⟨-, -, hs⟩
  · rw [hs]
    omega
  · rw [hs]
    exact ⟨hle, hnext⟩

/-- Entries never take a session back, and each of them takes it on by one stage at most. -/
theorem rank_afterTaking (s : Session) (entries : List LogEntry) :
    s.stage.rank ≤ (s.afterTaking entries).stage.rank ∧
      (s.afterTaking entries).stage.rank ≤ s.stage.rank + entries.length := by
  induction entries generalizing s with
  | nil => exact ⟨Nat.le_refl _, Nat.le_refl _⟩
  | cons entry entries ih =>
    have hfirst := s.rank_take entry
    have hrest := ih (s.take entry).session
    change _ ∧ (afterTaking (s.take entry).session entries).stage.rank ≤ _
    rw [List.length_cons]
    exact ⟨Nat.le_trans hfirst.1 hrest.1, by omega⟩

theorem afterTaking_append (s : Session) (before after : List LogEntry) :
    s.afterTaking (before ++ after) = (s.afterTaking before).afterTaking after :=
  List.foldl_append

theorem target_afterTaking (s : Session) (entries : List LogEntry) :
    (s.afterTaking entries).target = s.target := by
  obtain ⟨stage, hs⟩ := s.exists_stage_afterTaking entries
  rw [hs]

theorem verbose_afterTaking (s : Session) (entries : List LogEntry) :
    (s.afterTaking entries).verbose = s.verbose := by
  obtain ⟨stage, hs⟩ := s.exists_stage_afterTaking entries
  rw [hs]

/-- Without the awaited call a session stays at its stage. -/
theorem stage_afterTaking_of_not_leads
    (h : ∀ entry ∈ entries, ¬ entry.Leads s.target s.stage) :
    (s.afterTaking entries).stage = s.stage := by
  induction entries generalizing s with
  | nil => rfl
  | cons entry entries ih =>
    obtain ⟨hfirst, hrest⟩ := List.forall_mem_cons.mp h
    have hs := stage_take_of_not_leads hfirst
    have ht : (s.take entry).session.target = s.target := s.target_afterTaking [entry]
    have hnext : ((s.take entry).session.afterTaking entries).stage = _ :=
      ih (by rw [hs, ht]; exact hrest)
    exact hnext.trans hs

/-- The first awaited call takes a quiet session to the next stage, and the rest goes on there. -/
theorem afterTaking_of_first {before : List LogEntry} (hq : s.verbose = false)
    (hb : ∀ e ∈ before, ¬ e.Leads s.target s.stage) (hl : entry.Leads s.target s.stage)
    (after : List LogEntry) :
    ∃ s' : Session, s.afterTaking (before ++ entry :: after) = s'.afterTaking after ∧
      s'.stage = s.stage.next ∧ s'.target = s.target ∧ s'.verbose = false := by
  have hstage := stage_afterTaking_of_not_leads hb
  have htarget := s.target_afterTaking before
  have hquiet := (s.verbose_afterTaking before).trans hq
  refine ⟨(s.afterTaking (before ++ [entry])), ?_, ?_, s.target_afterTaking _,
    (s.verbose_afterTaking _).trans hq⟩
  · rw [← afterTaking_append, List.append_assoc, List.singleton_append]
  · rw [afterTaking_append]
    have hnext := stage_take_of_leads hquiet (by rw [htarget, hstage]; exact hl)
    exact hnext.trans (by rw [hstage])

end Session

/-- Which of the awaited calls are among the entries that brought a check to a stage. -/
def Stage.Tells (target : Target) (entries : List LogEntry) : Stage → Prop
  | .awaitLookup => ∀ e ∈ entries, ¬ e.LooksUp target
  | .awaitUpload => ∃ before lookup after, entries = before ++ lookup :: after ∧
      (∀ e ∈ before, ¬ e.LooksUp target) ∧ lookup.LooksUp target ∧
        ∀ e ∈ after, ¬ e.Uploads target
  | .awaitExecute => ∃ before lookup after, entries = before ++ lookup :: after ∧
      (∀ e ∈ before, ¬ e.LooksUp target) ∧ lookup.LooksUp target ∧ ∃ e ∈ after, e.Uploads target

/-- Any entries are told of by some stage. -/
theorem Stage.exists_tells (target : Target) (entries : List LogEntry) :
    ∃ stage : Stage, stage.Tells target entries := by
  rcases forall_not_or_exists_first (fun e : LogEntry => e.LooksUp target) entries with
    hn | ⟨before, lookup, after, he, hb, hl⟩
  · exact ⟨.awaitLookup, hn⟩
  · by_cases hu : ∃ e ∈ after, e.Uploads target
    · exact ⟨.awaitExecute, before, lookup, after, he, hb, hl, hu⟩
    · have hnone : ∀ e ∈ after, ¬ e.Uploads target := fun e hm hue => hu ⟨e, hm, hue⟩
      exact ⟨.awaitUpload, before, lookup, after, he, hb, hl, hnone⟩

namespace Session

variable {s : Session} {entries : List LogEntry} {stage : Stage}

variable [KnownTypes]

/-- A quiet session at its beginning comes to the stage that tells of its entries. -/
theorem stage_of_tells (hq : s.verbose = false) (hs : s.stage = .awaitLookup)
    (h : stage.Tells s.target entries) : (s.afterTaking entries).stage = stage := by
  have hlooksUp : ∀ e : LogEntry, e.Leads s.target s.stage ↔ e.LooksUp s.target := by
    intro e
    rw [hs]
    rfl
  cases stage with
  | awaitLookup =>
    have hnone : ∀ e ∈ entries, ¬ e.Leads s.target s.stage := fun e hm =>
      (hlooksUp e).not.mpr (h e hm)
    exact (stage_afterTaking_of_not_leads hnone).trans hs
  | awaitUpload =>
    obtain ⟨before, lookup, after, rfl, hb, hl, hn⟩ := h
    obtain ⟨s', he, hs', ht', -⟩ := afterTaking_of_first hq
      (fun e hm => (hlooksUp e).not.mpr (hb e hm)) ((hlooksUp lookup).mpr hl) after
    have hupload : s'.stage = .awaitUpload := by rw [hs', hs]; rfl
    rw [he, stage_afterTaking_of_not_leads, hupload]
    rw [hupload, ht']
    exact hn
  | awaitExecute =>
    obtain ⟨before, lookup, after, rfl, hb, hl, upload, hm, hu⟩ := h
    obtain ⟨s', he, hs', ht', hq'⟩ := afterTaking_of_first hq
      (fun e hm => (hlooksUp e).not.mpr (hb e hm)) ((hlooksUp lookup).mpr hl) after
    have hupload : s'.stage = .awaitUpload := by rw [hs', hs]; rfl
    have huploads : ∀ e : LogEntry, e.Leads s'.target s'.stage ↔ e.Uploads s.target := by
      intro e
      rw [hupload, ht']
      rfl
    rcases forall_not_or_exists_first (fun e : LogEntry => e.Uploads s.target) after with
      hn | ⟨others, first, rest, rfl, ho, hf⟩
    · exact absurd hu (hn upload hm)
    · obtain ⟨s'', he', hs'', -, -⟩ := afterTaking_of_first hq'
        (fun e hm => (huploads e).not.mpr (ho e hm)) ((huploads first).mpr hf) rest
      have hexecute : s''.stage = .awaitExecute := by rw [hs'', hupload]; rfl
      have hstays : ∀ e ∈ rest, ¬ e.Leads s''.target s''.stage := by
        intro e _
        rw [hexecute]
        exact id
      rw [he, he', stage_afterTaking_of_not_leads hstays, hexecute]

/-- The stage of a quiet session tells of the entries that it was given. -/
theorem stage_eq_iff (hq : s.verbose = false) (hs : s.stage = .awaitLookup) :
    (s.afterTaking entries).stage = stage ↔ stage.Tells s.target entries := by
  constructor
  · intro h
    obtain ⟨stage', ht⟩ := Stage.exists_tells s.target entries
    have hsame := (stage_of_tells hq hs ht).symm.trans h
    rw [← hsame]
    exact ht
  · exact stage_of_tells hq hs

end Session

/-- Entries that are given to a session at once. -/
inductive Portion where
  /-- One entry, which is taken whatever comes of it. -/
  | single (entry : LogEntry)
  /-- Entries that are taken up to a finding or an error. -/
  | stream (entries : List LogEntry)

namespace Session

variable [KnownTypes]

/-- The session after it was given a portion. -/
def afterPortion (s : Session) : Portion → Session
  | .single entry => (s.take entry).session
  | .stream entries => (s.takeAll entries).1.session

/-- The entries of a portion that a session takes. -/
def takenOf (s : Session) : Portion → List LogEntry
  | .single entry => [entry]
  | .stream entries => entries.take (entries.length - (s.takeAll entries).2.length)

/-- The session after it was given portions one after the other. -/
def afterPortions (s : Session) (portions : List Portion) : Session :=
  portions.foldl afterPortion s

/-- All entries of the portions that a session takes. -/
def history : Session → List Portion → List LogEntry
  | _, [] => []
  | s, portion :: portions => s.takenOf portion ++ (s.afterPortion portion).history portions

/-- Entries taken up to a finding or an error are taken one by one. -/
theorem exists_taken_takeAll (s : Session) (entries : List LogEntry) :
    ∃ taken, entries = taken ++ (s.takeAll entries).2 ∧
      (s.takeAll entries).1.session = s.afterTaking taken := by
  induction entries generalizing s with
  | nil => exact ⟨[], rfl, rfl⟩
  | cons entry entries ih =>
    by_cases hgo : (s.take entry).GoesOn
    · obtain ⟨taken, hsplit, hsession⟩ := ih (s.take entry).session
      rw [takeAll_of_goesOn hgo]
      exact ⟨entry :: taken, congrArg (entry :: ·) hsplit, hsession⟩
    · rw [takeAll_of_decisive hgo]
      exact ⟨[entry], rfl, rfl⟩

/-- A portion is taken entry by entry. -/
theorem afterPortion_eq (s : Session) (portion : Portion) :
    s.afterPortion portion = s.afterTaking (s.takenOf portion) := by
  cases portion with
  | single entry => rfl
  | stream entries =>
    obtain ⟨taken, hsplit, hsession⟩ := s.exists_taken_takeAll entries
    have htaken : s.takenOf (.stream entries) = taken := by
      have hlength := congrArg List.length hsplit
      rw [List.length_append] at hlength
      rw [takenOf, hlength, Nat.add_sub_cancel]
      nth_rewrite 1 [hsplit]
      exact List.take_left
    rw [htaken]
    exact hsession

/-- Portions are taken entry by entry. -/
theorem afterPortions_eq (s : Session) (portions : List Portion) :
    s.afterPortions portions = s.afterTaking (s.history portions) := by
  induction portions generalizing s with
  | nil => rfl
  | cons portion portions ih =>
    rw [history, afterTaking_append, ← afterPortion_eq]
    exact ih (s.afterPortion portion)

end Session

variable [KnownTypes]

/--
Whatever entries a quiet session was given, one by one or many at a time, and whatever came of
them, it has counted those that it took, and its stage tells which of the awaited calls were among
these. No portion takes it back, no entry takes it on by more than one stage, and an entry that
comes to a verdict or leads nowhere leaves it where it is.
-/
theorem stage_of_history (target : Target) (portions : List Portion) :
    let start : Session := { target := target, verbose := false }
    let fed := start.history portions
    let s := start.afterPortions portions
    s.entriesRead = fed.length ∧
      (s.stage = .awaitLookup ↔ ∀ e ∈ fed, ¬ e.LooksUp target) ∧
      (s.stage = .awaitUpload ↔ ∃ before lookup after, fed = before ++ lookup :: after ∧
        (∀ e ∈ before, ¬ e.LooksUp target) ∧ lookup.LooksUp target ∧
          ∀ e ∈ after, ¬ e.Uploads target) ∧
      (s.stage = .awaitExecute ↔ ∃ before lookup after, fed = before ++ lookup :: after ∧
        (∀ e ∈ before, ¬ e.LooksUp target) ∧ lookup.LooksUp target ∧
          ∃ e ∈ after, e.Uploads target) ∧
      (∀ portion, s.stage.rank ≤ (s.afterPortion portion).stage.rank) ∧
      ∀ entry, (s.take entry).session.stage.rank ≤ s.stage.rank + 1 ∧
        (¬ (s.take entry).GoesOn → (s.take entry).session.stage = s.stage) := by
  intro start fed s
  have hs : s = start.afterTaking fed := start.afterPortions_eq portions
  have hstage : ∀ stage : Stage, s.stage = stage ↔ stage.Tells target fed := by
    intro stage
    rw [hs]
    exact Session.stage_eq_iff rfl rfl
  refine ⟨?_, hstage .awaitLookup, hstage .awaitUpload, hstage .awaitExecute, fun portion => ?_,
    fun entry => ⟨(s.rank_take entry).2, Session.stage_take_of_decisive⟩⟩
  · rw [hs, Session.entriesRead_afterTaking]
    exact Nat.zero_add _
  · rw [Session.afterPortion_eq]
    exact (s.rank_afterTaking _).1

end CallTrace
