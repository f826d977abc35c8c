import CallTrace.Proofs.Check.Exhibits
import CallTrace.Proofs.Check.Folding

/-!
# Checks that can still pass

A check that has run out of entries has found nothing against the log: what its
stage still waits for can be appended, and then it passes. A check that an entry
has ended stays as it is, whatever is appended. So running out is the same as
being able to pass without having passed, for every blob whose size fits a digest.
-/

namespace CallTrace

/-- A check has come to the verdict. -/
def EndsWith (verdict : Verdict) (outcome : Except AdvanceError Advance) : Prop :=
  ∃ a, outcome = .ok a ∧ a.verdict? = some verdict

/-- A check comes to at most one verdict. -/
theorem EndsWith.unique {v v' : Verdict} {outcome : Except AdvanceError Advance}
    (h : EndsWith v outcome) (h' : EndsWith v' outcome) : v = v' := by
  obtain ⟨a, rfl, hv⟩ := h
  obtain ⟨a', ha, hv'⟩ := h'
  cases ha
  exact Option.some.inj (hv.symm.trans hv')

namespace Session

variable {s : Session} {entries : List LogEntry}

variable [KnownTypes]

/-- While no entry has ended the check, it runs out. -/
theorem outcome_of_undecided (h : s.Undecided entries) :
    (s.takeAll entries).1.outcome = .ok (s.afterTaking entries).stage.ranOut := by
  obtain ⟨text, ht⟩ := takeAll_append h
  have hall := ht []
  rw [List.append_nil] at hall
  rw [hall]
  rfl

/-- An entry that ends the check does not make it run out. -/
theorem not_endsWith_incomplete_of_decisive {entry : LogEntry} (hd : ¬ (s.take entry).GoesOn) :
    ¬ EndsWith .incomplete (s.take entry).outcome := by
  rintro ⟨a, ha, hv⟩
  rcases Stage.advance_cases (advance_of_take ha) with ⟨m, hm⟩ | ⟨-, ⟨-, hf⟩ | ⟨v, hf, -⟩⟩
  · exact hd ⟨a, m, ha, hm⟩
  · cases hv.symm.trans (Advance.verdict?_of_final hf)
  · cases hv.symm.trans (Advance.verdict?_of_final hf)

/-- A check runs out just where no entry has ended it. -/
theorem endsWith_incomplete_iff :
    EndsWith .incomplete (s.takeAll entries).1.outcome ↔ s.Undecided entries := by
  constructor
  · intro h
    rcases undecided_or_exists_decisive s entries with hu | ⟨before, entry, after, rfl, hu, hd⟩
    · exact hu
    · obtain ⟨text, ht⟩ := takeAll_append hu
      rw [ht, takeAll_of_decisive hd] at h
      exact absurd h (not_endsWith_incomplete_of_decisive hd)
  · intro h
    exact ⟨_, outcome_of_undecided h, rfl⟩

end Session

namespace Stage

variable {target : Target} {entries : List LogEntry}

/-- Entries that show what a check at the stage still waits for. -/
def completion (target : Target) : Stage → List LogEntry
  | .awaitLookup => [target.lookup, target.upload, target.execution]
  | .awaitUpload => [target.upload, target.execution]
  | .awaitExecute => [target.execution]

section Completion

variable (hs : target.size < 2 ^ 63)
include hs

theorem completes_completion (stage : Stage) :
    stage.Completes target (stage.completion target) := by
  have hexecute : awaitExecute.Completes target (awaitExecute.completion target) :=
    ⟨[], target.execution, [], rfl, List.forall_mem_nil _, Target.produces_execution hs⟩
  have hupload : awaitUpload.Completes target (awaitUpload.completion target) :=
    (completes_upload_cons (Target.uploads_upload target)).mpr hexecute
  cases stage with
  | awaitLookup => exact completes_lookup_cons.mpr ⟨Target.looksUp_lookup hs, hupload⟩
  | awaitUpload => exact hupload
  | awaitExecute => exact hexecute

variable [KnownTypes]

/-- Given what its stage waits for, a check passes. -/
theorem passes_completion (stage : Stage) :
    Passes (stage.run target (stage.completion target)).outcome := by
  have hall : ∀ entry ∈ stage.completion target,
      entry ∈ [target.lookup, target.upload, target.execution] := by
    cases stage <;> simp [completion]
  have hrelated : ∀ entry ∈ [target.lookup, target.upload, target.execution],
      isUnrelated entry.methodName = false := by
    simp only [List.forall_mem_cons, List.not_mem_nil, false_implies, implies_true, and_true]
    exact ⟨(LogEntry.plays_ofLookup _).related, (LogEntry.plays_ofUpload _).related,
      (LogEntry.plays_ofExecution _).related⟩
  have hdescribable : ∀ entry ∈ [target.lookup, target.upload, target.execution],
      ∀ op ∈ entry.executions, op.Describable := by
    simp only [List.forall_mem_cons, List.not_mem_nil, false_implies, implies_true, and_true]
    exact ⟨List.forall_mem_nil _, List.forall_mem_nil _, Target.describable_execution⟩
  exact (passes_run_iff target stage _ (fun entry h => hrelated entry (hall entry h))
    fun entry h => hdescribable entry (hall entry h)).mpr (completes_completion hs stage)

end Completion

variable [KnownTypes]

end Stage

section

variable [KnownTypes]

end

end CallTrace
