import CallTrace.Proofs.Check.Completion
import CallTrace.Proofs.Check.Insertion
import CallTrace.Proofs.Check.OutputModes

/-!
# What a quiet session says

A session that is told to be quiet takes the same entries as before and comes to the same, as long
as each of them could have been shown. It does not say a word unless the check passes, and what it
says of the pass is also the last that the other session says.
-/

namespace CallTrace

/-- The session that says no more than it must. -/
def Session.hushed (s : Session) : Session := { s with verbose := false }

/-- Two sessions took the same, and the quiet one said only what the other one said last. -/
structure Taken.Echoes (quiet loud : Taken) : Prop where
  /-- They come to the same. -/
  outcome : quiet.outcome = loud.outcome
  /-- But for what they say, the sessions are the same. -/
  session : quiet.session = loud.session.hushed
  /-- The words of the quiet session end those of the other. -/
  printed : ∃ text, loud.printed = text ++ quiet.printed

theorem Taken.Echoes.goesOn_iff {quiet loud : Taken} (h : quiet.Echoes loud) :
    quiet.GoesOn ↔ loud.GoesOn := by
  rw [GoesOn, GoesOn, h.outcome]

namespace Session

variable {s : Session} {entry : LogEntry} {entries pulled : List LogEntry}

/-! ### Side by side -/

/-- A milestone that a quiet session tells is told by every session, and nothing is said behind
it. -/
theorem exists_progressLines_hushed (s : Session) (a : Advance) :
    ∃ text, s.progressLines a = text ++ s.hushed.progressLines a := by
  simp only [progressLines_eq]
  cases a.progress? with
  | none => exact ⟨"", rfl⟩
  | some told =>
    by_cases hpass : a.verdict? = some .pass
    · exact ⟨"", by simp [hpass]⟩
    · refine ⟨if s.verbose then told ++ "\n" ++ ruler else "", ?_⟩
      simp [hushed, hpass]

variable [KnownTypes]

/-- An entry that can be shown is taken quietly as it is aloud. -/
theorem take_hushed (s : Session) {text : String} (h : entry.transcript = .ok text) :
    (s.hushed.take entry).Echoes (s.take entry) := by
  obtain ⟨shown, hshown⟩ := s.announce_of_sound (entry.transcript_iff.mp ⟨text, h⟩)
  have hquiet : s.hushed.announce entry = .ok "" := announce_of_quiet rfl entry
  have hadvance : s.hushed.stage.advance entry s.hushed.target =
      s.stage.advance entry s.target := rfl
  rw [take_of_shown hshown, take_of_shown hquiet, hadvance]
  cases s.stage.advance entry s.target with
  | error e => exact ⟨rfl, rfl, shown, String.append_empty.symm⟩
  | ok a =>
    obtain ⟨told, htold⟩ := s.exists_progressLines_hushed a
    have hnotes : s.hushed.noteLines a = "" := rfl
    refine ⟨rfl, rfl, shown ++ s.noteLines a ++ told, ?_⟩
    dsimp only
    rw [htold, hnotes, String.empty_append, String.empty_append]
    exact String.append_assoc.symm

/-- The first entry of a list is pulled, and then as many as the next session pulls. -/
theorem exists_pulled_cons (h : entry :: entries = pulled ++ (s.takeAll (entry :: entries)).2) :
    ∃ rest, pulled = entry :: rest ∧ ((s.take entry).GoesOn →
      entries = rest ++ ((s.take entry).session.takeAll entries).2) := by
  cases pulled with
  | nil =>
    have hlength := congrArg List.length h
    by_cases hgo : (s.take entry).GoesOn
    · obtain ⟨taken, hsplit, -⟩ := (s.take entry).session.exists_taken_takeAll entries
      have hleft := congrArg List.length hsplit
      rw [takeAll_of_goesOn hgo] at hlength
      simp only [List.length_cons, List.nil_append, List.length_append] at hlength hleft
      omega
    · rw [takeAll_of_decisive hgo] at hlength
      simp at hlength
  | cons first rest =>
    obtain ⟨rfl, hrest⟩ := List.cons.inj h
    refine ⟨rest, rfl, fun hgo => ?_⟩
    rw [takeAll_of_goesOn hgo] at hrest
    exact hrest

/-- If all that either session pulls can be shown, they pull the same and come to the same. -/
theorem takeAll_hushed {t : Session} (ht : t = s ∨ t = s.hushed)
    (hsplit : entries = pulled ++ (t.takeAll entries).2)
    (hshown : ∀ entry ∈ pulled, ∃ text, entry.transcript = .ok text) :
    (s.hushed.takeAll entries).1.Echoes (s.takeAll entries).1 ∧
      (s.hushed.takeAll entries).2 = (s.takeAll entries).2 := by
  induction entries generalizing s t pulled with
  | nil => exact ⟨⟨rfl, rfl, "", rfl⟩, rfl⟩
  | cons entry entries ih =>
    obtain ⟨rest, rfl, hrest⟩ := exists_pulled_cons hsplit
    obtain ⟨text, htext⟩ := hshown entry List.mem_cons_self
    have hstep := s.take_hushed htext
    by_cases hgo : (s.take entry).GoesOn
    · have hquiet : (s.hushed.take entry).GoesOn := hstep.goesOn_iff.mpr hgo
      obtain ⟨hgo', ht'⟩ : (t.take entry).GoesOn ∧
          ((t.take entry).session = (s.take entry).session ∨
            (t.take entry).session = (s.take entry).session.hushed) := by
        rcases ht with rfl | rfl
        · exact ⟨hgo, .inl rfl⟩
        · exact ⟨hquiet, .inr hstep.session⟩
      obtain ⟨hall, hleft⟩ := ih ht' (hrest hgo') fun x hx => hshown x (List.mem_cons_of_mem _ hx)
      obtain ⟨before, hlast⟩ := hall.printed
      -- What is said of an entry that leaves the check open is not told by the quiet session.
      have hsilent : (s.hushed.take entry).printed = "" := printed_take_of_goesOn rfl hquiet
      rw [takeAll_of_goesOn hgo, takeAll_of_goesOn hquiet, hstep.session, hsilent]
      refine ⟨⟨hall.outcome, hall.session, (s.take entry).printed ++ before, ?_⟩, hleft⟩
      rw [Taken.after, Taken.after, hlast, String.empty_append, String.append_assoc]
    · have hquiet : ¬ (s.hushed.take entry).GoesOn := hstep.goesOn_iff.not.mpr hgo
      rw [takeAll_of_decisive hgo, takeAll_of_decisive hquiet]
      exact ⟨hstep, rfl⟩

end Session

/-! ### Word for word -/

/-- The words for a pass, with a line under them. -/
def Target.passText (target : Target) : String :=
  (Finding.passed target.hash).message ++ "\n" ++ ruler

/-- What was said is that the target was found, or nothing if it was not. -/
structure Taken.TellsPassOnly (t : Taken) (target : Target) : Prop where
  /-- A pass is one of the target, and is told of. -/
  passed : ∀ a, t.outcome = .ok a → a.verdict? = some .pass →
    a.ruling = .final (.passed target.hash) ∧ t.printed = target.passText
  /-- Anything else goes without a word. -/
  silent : ¬ Passes t.outcome → t.printed = ""

/-- The pass is also the last milestone. -/
theorem Advance.progress?_of_passed {a : Advance} {hash : String}
    (h : a.ruling = .final (.passed hash)) :
    a.progress? = some (Finding.passed hash).message := by
  unfold progress?
  rw [h]
  exact rfl

namespace Session

variable {s : Session} {entry : LogEntry} {a : Advance}

/-- Every session tells of the pass. -/
theorem progressLines_of_passed (h : a.ruling = .final (.passed s.target.hash)) :
    s.progressLines a = s.target.passText := by
  have hpass : (s.verbose || a.verdict? = some .pass) = true := by
    rw [Advance.verdict?_of_final h]
    simp [Finding.verdict]
  rw [progressLines_eq, Target.passText, Advance.progress?_of_passed h]
  exact if_pos hpass

variable [KnownTypes]

theorem take_tellsPassOnly (hq : s.verbose = false) (entry : LogEntry) :
    (s.take entry).TellsPassOnly s.target := by
  rw [take_of_shown (announce_of_quiet hq entry)]
  cases ha : s.stage.advance entry s.target with
  | error e => exact ⟨nofun, fun _ => rfl⟩
  | ok a =>
    have hnotes : s.noteLines a = "" := by simp [noteLines_eq, hq]
    dsimp only
    rw [hnotes, String.empty_append, String.empty_append]
    constructor
    · rintro _ ⟨⟩ hv
      have hr := (Stage.ruling_of_pass ha hv).2
      exact ⟨hr, progressLines_of_passed hr⟩
    · intro hpass
      exact progressLines_of_not_pass hq fun hv => hpass ⟨a, rfl, hv⟩

/-- A quiet session that takes entries says that the check passed, or nothing. -/
theorem takeAll_tellsPassOnly (hq : s.verbose = false) (entries : List LogEntry) :
    (s.takeAll entries).1.TellsPassOnly s.target := by
  induction entries generalizing s with
  | nil =>
    refine ⟨fun a ha hv => ?_, fun _ => rfl⟩
    exact absurd ⟨a, ha, hv⟩ (not_passes_ranOut s.stage)
  | cons entry entries ih =>
    by_cases hgo : (s.take entry).GoesOn
    · have hsession := s.session_take entry
      have htarget : (s.take entry).session.target = s.target := by rw [hsession]
      rw [takeAll_of_goesOn hgo, Taken.after, printed_take_of_goesOn hq hgo, String.empty_append,
        ← htarget]
      exact ih ((s.verbose_take entry).trans hq)
    · rw [takeAll_of_decisive hgo]
      exact take_tellsPassOnly hq entry

end Session

/--
A verbose and a quiet session that take a log from its start come to the same, with the same
entries left over and the same state, if each entry that either of them takes can be shown. The
quiet session tells of a pass, in the words of the verdict and with a line under them, and
otherwise it is silent. What it says is the end of what the verbose session says.
-/
theorem Session.takeAll_echoes [KnownTypes] (target : Target) (entries : List LogEntry) :
    let loud := ({ target := target, verbose := true } : Session).takeAll entries
    let quiet := ({ target := target, verbose := false } : Session).takeAll entries
    let message := (Finding.passed target.hash).message
    (∀ pulled, entries = pulled ++ loud.2 ∨ entries = pulled ++ quiet.2 →
      (∀ entry ∈ pulled, ∃ text, entry.transcript = .ok text) →
      quiet.1.outcome = loud.1.outcome ∧ quiet.2 = loud.2 ∧
      quiet.1.session.stage = loud.1.session.stage ∧
      quiet.1.session.entriesRead = loud.1.session.entriesRead ∧
      ∃ text, loud.1.printed = text ++ quiet.1.printed) ∧
    (∀ a, quiet.1.outcome = .ok a → a.verdict? = some .pass →
      a.message? = some message ∧ quiet.1.printed = message ++ "\n" ++ ruler) ∧
    (¬ Passes quiet.1.outcome → quiet.1.printed = "") := by
  intro loud quiet message
  have htold : quiet.1.TellsPassOnly target :=
    takeAll_tellsPassOnly (s := { target := target, verbose := false }) rfl entries
  refine ⟨?_, ?_, htold.silent⟩
  · intro pulled hsplit hshown
    have hboth : quiet.1.Echoes loud.1 ∧ quiet.2 = loud.2 := by
      rcases hsplit with hsplit | hsplit
      · exact takeAll_hushed (.inl rfl) hsplit hshown
      · exact takeAll_hushed (s := { target := target, verbose := true }) (.inr rfl) hsplit hshown
    obtain ⟨hechoes, hleft⟩ := hboth
    refine ⟨hechoes.outcome, hleft, ?_, ?_, hechoes.printed⟩
    · rw [hechoes.session]
      rfl
    · rw [hechoes.session]
      rfl
  · intro a ha hv
    obtain ⟨hr, hprinted⟩ := htold.passed a ha hv
    refine ⟨?_, hprinted⟩
    rw [Advance.message?, Advance.finding?_of_final hr, Option.map_some]

attribute [local instance] KnownTypes.ofLogs in
theorem Session.takeAll_echoes_completion :
    let target : Target := ⟨"h", 1, by decide⟩
    let entries := Stage.awaitLookup.completion target
    let loud := ({ target := target, verbose := true } : Session).takeAll entries
    let quiet := ({ target := target, verbose := false } : Session).takeAll entries
    Passes quiet.1.outcome ∧ quiet.1.outcome = loud.1.outcome ∧
      quiet.1.printed = (Finding.passed "h").message ++ "\n" ++ ruler ∧
      ∃ text, loud.1.printed = text ++ quiet.1.printed := by
  intro target entries loud quiet
  have hname : (MessageType.executeResponse.pack target.response).messageType? =
      some .executeResponse := by decide
  have hdecode := ((Any.unpackAs_eq_ok_iff _ _ _).mp (Target.unpackAs_response target)).2
  have hexecution : target.execution.Sound :=
    List.forall_mem_singleton.mpr
      (.known (Any.contents?_of_decode hname hdecode) (List.forall_mem_nil _))
  have hsound : ∀ entry ∈ entries, entry.Sound :=
    List.forall_mem_cons.mpr ⟨List.forall_mem_nil _,
      List.forall_mem_cons.mpr ⟨List.forall_mem_nil _, List.forall_mem_singleton.mpr hexecution⟩⟩
  have hpasses : Passes quiet.1.outcome := by
    have hrun := (takeAll_of_quiet (s := { target := target, verbose := false }) rfl entries).1
    exact hrun ▸ Stage.passes_completion (by decide) .awaitLookup
  obtain ⟨hechoes, htold, -⟩ := takeAll_echoes target entries
  obtain ⟨pulled, hsplit, -⟩ := exists_taken_takeAll { target := target, verbose := true } entries
  obtain ⟨houtcome, -, -, -, hprinted⟩ := hechoes pulled (.inl hsplit) fun entry hm =>
    entry.transcript_iff.mpr (hsound entry (hsplit ▸ List.mem_append_left _ hm))
  obtain ⟨a, ha, hv⟩ := hpasses
  exact ⟨⟨a, ha, hv⟩, houtcome, (htold a ha hv).2, hprinted⟩

end CallTrace
