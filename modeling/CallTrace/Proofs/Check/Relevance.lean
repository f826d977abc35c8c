import CallTrace.Proofs.Check.Steps
import CallTrace.Proofs.Operation.Classification

/-!
# What a check reads of an entry

Of two entries for one method a check cannot tell which it took if they ask for the same digests,
upload to the same names or have the same first result, each while it matters. The order and the
number of digests and names, the times and the status of a call, what is unknown in it, and
operations around the first one that is done are all the same to it.
-/

namespace CallTrace

namespace LogEntry

/-- A lookup asks for a digest of the hash and the size. -/
def AsksFor (entry : LogEntry) (hash : String) (size : Int64) : Prop :=
  ∃ d ∈ entry.lookedUp, d.hash = hash ∧ d.sizeBytes = size

/-- The first operation of an execution that is done has the result. -/
def FirstEndsIn (entry : LogEntry) (result : Option OperationResult) : Prop :=
  ∃ op : Operation, op.IsFirstDoneOf entry.executions ∧ op.result = result

end LogEntry

/-- Two entries agree in all that is read at the stage, apart from the method. -/
def Stage.LooksAlike (stage : Stage) (entry entry' : LogEntry) : Prop :=
  match stage with
  | .awaitLookup => ∀ hash size, entry.AsksFor hash size ↔ entry'.AsksFor hash size
  | .awaitUpload => ∀ name, name ∈ entry.uploadedNames ↔ name ∈ entry'.uploadedNames
  | .awaitExecute => ∀ result, entry.FirstEndsIn result ↔ entry'.FirstEndsIn result

section Congruences

variable {entry entry' : LogEntry}

/-- Whether a target is looked up hangs on what is asked for. -/
theorem Target.isListedIn_congr (h : Stage.awaitLookup.LooksAlike entry entry') (target : Target) :
    target.isListedIn entry'.lookedUp = target.isListedIn entry.lookedUp := by
  have hnamed : ∀ e : LogEntry, (∃ d ∈ e.lookedUp, d.Names target) ↔
      ∃ size : Int64, size.toInt = target.size ∧ e.AsksFor target.hash size := by
    intro e
    constructor
    · rintro ⟨d, hd, hhash, hsize⟩
      exact ⟨d.sizeBytes, hsize, d, hd, hhash, rfl⟩
    · rintro ⟨_, hsize, d, hd, hhash, rfl⟩
      exact ⟨d, hd, hhash, hsize⟩
  rw [Bool.eq_iff_iff, isListedIn_iff, isListedIn_iff, hnamed, hnamed]
  exact exists_congr fun size => and_congr_right fun _ => (h target.hash size).symm

/-- Whether a target is uploaded hangs on the names alone. -/
theorem Target.endsSome_congr (h : Stage.awaitUpload.LooksAlike entry entry') (target : Target) :
    target.endsSome entry'.uploadedNames = target.endsSome entry.uploadedNames := by
  rw [Bool.eq_iff_iff, endsSome_iff, endsSome_iff]
  exact exists_congr fun name => and_congr_left fun _ => (h name).symm

variable [KnownTypes]

/-- What an execution comes to hangs on its first result. -/
theorem Stage.onExecution_congr (h : Stage.awaitExecute.LooksAlike entry entry') (target : Target) :
    onExecution entry' target = onExecution entry target := by
  by_cases hdone : ∃ op : Operation, op.IsFirstDoneOf entry.executions
  · obtain ⟨op, hop⟩ := hdone
    obtain ⟨op', hop', hr⟩ := (h op.result).mp ⟨op, hop, rfl⟩
    have hd : op'.done = op.done := hop'.1.trans hop.1.symm
    rw [onExecution_of_finished hop, onExecution_of_finished hop', Operation.conclude_congr hd hr]
  · -- Without a first result in one entry there is none in the other, or it would be shared.
    have hdone' : ∀ op : Operation, ¬ op.IsFirstDoneOf entry'.executions := by
      intro op' hop'
      obtain ⟨op, hop, -⟩ := (h op'.result).mpr ⟨op', hop', rfl⟩
      exact hdone ⟨op, hop⟩
    rw [onExecution_of_unfinished (not_exists.mp hdone), onExecution_of_unfinished hdone']

end Congruences

namespace Stage

variable {stage : Stage} {entry entry' : LogEntry}

theorem LooksAlike.refl (stage : Stage) (entry : LogEntry) : stage.LooksAlike entry entry := by
  cases stage <;> exact fun _ => by simp

section

variable [KnownTypes]

/-- A check reads nothing of an entry but its method and what it is alike in at the stage. -/
theorem advance_congr (hm : entry'.methodName = entry.methodName)
    (h : stage.LooksAlike entry entry') (target : Target) :
    stage.advance entry' target = stage.advance entry target := by
  cases hu : isUnrelated entry.methodName with
  | true =>
    rw [advance_of_unrelated stage hu, advance_of_unrelated stage (hm ▸ hu)]
  | false =>
    obtain ⟨role, hp⟩ := exists_plays_of_related hu
    have hp' : entry'.Plays role := by rwa [LogEntry.Plays, hm]
    rw [advance_of_plays stage hp, advance_of_plays stage hp']
    cases stage with
    | awaitLookup =>
      cases role with
      | lookup => simp only [onLookup, Target.isListedIn_congr h]
      | upload => simp only [onLookup, hm]
      | execution => simp only [onLookup, hm]
    | awaitUpload =>
      cases role with
      | lookup => simp only [onUpload, hm]
      | upload => simp only [onUpload, Target.endsSome_congr h]
      | execution => simp only [onUpload, hm]
    | awaitExecute =>
      cases role with
      | lookup => simp only [onExecute, hm]
      | upload => rfl
      | execution => exact onExecution_congr h target

omit [KnownTypes] in
/-- Executions are alike if their first operations that are done have one result. -/
theorem looksAlike_of_first {op op' : Operation} (hop : op.IsFirstDoneOf entry.executions)
    (hop' : op'.IsFirstDoneOf entry'.executions) (hr : op'.result = op.result) :
    awaitExecute.LooksAlike entry entry' := by
  intro result
  constructor
  · rintro ⟨first, hfirst, rfl⟩
    cases hop.unique hfirst
    exact ⟨op', hop', hr⟩
  · rintro ⟨first, hfirst, rfl⟩
    cases hop'.unique hfirst
    exact ⟨op, hop, hr.symm⟩

/--
At each stage two entries for one method come to the same, with the same notes and errors, if they
look alike there. So the times, the status and the unknown fields of a call have no part in it,
and neither have an operation that is not done before the first one that is, any operation after
it, and what but its result that one has.
-/
theorem advance_of_looksAlike (stage : Stage) (entry entry' : LogEntry) (target : Target) :
    (entry'.methodName = entry.methodName → stage.LooksAlike entry entry' →
      stage.advance entry' target = stage.advance entry target) ∧
    (∀ startTime endTime status unknown,
      stage.advance { entry with startTime, endTime, status, unknown } target =
        stage.advance entry target) ∧
    ∀ (before before' after after' : List Operation) (op op' : Operation),
      entry'.methodName = entry.methodName →
      entry.executions = before ++ op :: after → entry'.executions = before' ++ op' :: after' →
      (∀ p ∈ before, p.done = false) → (∀ p ∈ before', p.done = false) →
      op.done = true → op'.done = true → op'.result = op.result →
      awaitExecute.advance entry' target = awaitExecute.advance entry target := by
  refine ⟨fun hm h => advance_congr hm h target, ?_, ?_⟩
  · intro startTime endTime status unknown
    have halike : stage.LooksAlike entry { entry with startTime, endTime, status, unknown } :=
      LooksAlike.refl stage entry
    exact advance_congr rfl halike target
  · intro before before' after after' op op' hm he he' hb hb' hd hd' hr
    have hop : op.IsFirstDoneOf entry.executions := ⟨hd, before, after, he, hb⟩
    have hop' : op'.IsFirstDoneOf entry'.executions := ⟨hd', before', after', he', hb'⟩
    exact advance_congr hm (looksAlike_of_first hop hop' hr) target

end

attribute [local instance] KnownTypes.ofLogs in
theorem advance_of_looksAlike_mistyped :
    let target : Target := ⟨"h", 1, by decide⟩
    let d : Digest := { hash := "h", sizeBytes := 1 }
    let failed : Operation := { done := true, result := some (.error { code := 5 }) }
    let mistyped := Operation.ofResponse .corruptStatus
    awaitLookup.advance (.ofLookup [d, {}, d]) target =
        awaitLookup.advance (.ofLookup [{}, { d with unknown := [0x18, 0x01] }]) target ∧
      awaitExecute.advance (.ofExecution [{}, { failed with name := "run" }, mistyped]) target =
        awaitExecute.advance (.ofExecution [failed]) target ∧
      mistyped.conclude .executeResponse =
        .error (.mistyped "type.googleapis.com/google.rpc.Status"
          "build.bazel.remote.execution.v2.ExecuteResponse") := by
  intro target d failed mistyped
  have hasked : awaitLookup.LooksAlike (.ofLookup [{}, { d with unknown := [0x18, 0x01] }])
      (.ofLookup [d, {}, d]) := by
    intro hash size
    have hasks : ∀ ds, (LogEntry.ofLookup ds).AsksFor hash size ↔
        ∃ d ∈ ds, d.hash = hash ∧ d.sizeBytes = size := fun _ => Iff.rfl
    simp only [hasks, List.mem_cons, exists_eq_or_imp, List.not_mem_nil, false_and, exists_false]
    tauto
  obtain ⟨hlookup, -⟩ := awaitLookup.advance_of_looksAlike
    (.ofLookup [{}, { d with unknown := [0x18, 0x01] }]) (.ofLookup [d, {}, d]) target
  obtain ⟨-, -, hexecution⟩ := awaitExecute.advance_of_looksAlike
    (.ofExecution [failed]) (.ofExecution [{}, { failed with name := "run" }, mistyped]) target
  refine ⟨hlookup rfl hasked, ?_, ?_⟩
  · exact hexecution [] [{}] [] [mistyped] failed { failed with name := "run" } rfl rfl rfl
      (by simp) (by simp) rfl rfl rfl
  · rw [Operation.conclude_of_response rfl rfl, Any.unpackAs, if_neg (by decide)]
    rfl

end Stage

end CallTrace
