import CallTrace.Proofs.Check.Blocks
import CallTrace.Proofs.Check.Completion

/-!
# Logs in parts

It makes no difference whether a session takes a log at once or in two parts, with the second part
given to the session that the first has left. If the first part ends the check, the second is not
looked at.
-/

namespace CallTrace

section

variable [KnownTypes]

/--
A session that runs out of the first part of a log takes the second part as it would have in one
go: it comes to the same, in the same state and with the same entries left over, and what it says
of the two parts together is what it says of both in one go. A session that is done within the
first part is not changed by a second one, which is left over entirely.
-/
theorem Session.takeAll_concatenated (s : Session) (before after : List LogEntry) :
    let first := s.takeAll before
    let second := first.1.session.takeAll after
    (EndsWith .incomplete first.1.outcome →
      s.takeAll (before ++ after) =
        (⟨second.1.outcome, second.1.session, first.1.printed ++ second.1.printed⟩, second.2)) ∧
    (¬ EndsWith .incomplete first.1.outcome →
      s.takeAll (before ++ after) = (first.1, first.2 ++ after)) := by
  intro first second
  exact ⟨fun h => takeAll_append_of_undecided (endsWith_incomplete_iff.mp h) after,
    fun h => takeAll_append_of_ended (fun hu => h (endsWith_incomplete_iff.mpr hu)) after⟩

end

attribute [local instance] KnownTypes.ofLogs in
theorem Session.takeAll_concatenated_lookup :
    let target : Target := ⟨"h", 1, by decide⟩
    let start : Session := { target := target, verbose := true }
    let first := start.takeAll [target.lookup]
    let second := first.1.session.takeAll [.ofExecution []]
    EndsWith .incomplete first.1.outcome ∧
      start.takeAll [target.lookup, .ofExecution []] =
        (⟨second.1.outcome, second.1.session, first.1.printed ++ second.1.printed⟩, second.2) ∧
      start.takeAll [.ofExecution [], target.lookup] =
        ((start.takeAll [.ofExecution []]).1, [target.lookup]) := by
  intro target start first second
  have hsound : target.lookup.Sound := List.forall_mem_nil _
  have hlooks : target.lookup.LooksUp target := Target.looksUp_lookup (by decide)
  obtain ⟨houtcome, -, -⟩ :=
    takeAll_of_one (s := start) hsound (Stage.advance_of_looksUp hlooks) rfl
  have hrunsOut : EndsWith .incomplete first.1.outcome := ⟨_, houtcome, rfl⟩
  have hexecution : start.takeAll [.ofExecution []] = (start.take (.ofExecution []), []) :=
    takeAll_of_decisive (decisive_execution start rfl)
  have hdone : ¬ EndsWith .incomplete (start.takeAll [.ofExecution []]).1.outcome := by
    rw [hexecution]
    exact not_endsWith_incomplete_of_decisive (decisive_execution start rfl)
  refine ⟨hrunsOut, (start.takeAll_concatenated [target.lookup] [.ofExecution []]).1 hrunsOut, ?_⟩
  have hleft := (start.takeAll_concatenated [.ofExecution []] [target.lookup]).2 hdone
  rw [hexecution] at hleft ⊢
  exact hleft

end CallTrace
