import CallTrace.Proofs.Check.Steps
import CallTrace.Proofs.Message.Display

/-!
# Entries that lead nowhere

Only the awaited execution can fail to lead anywhere, and only for what its
first finished operation holds. Either the response is none of the expected
type, or the response or the failure has something packed in it that cannot be
displayed, for what an execution came to is put into words before it is judged.
-/

namespace CallTrace

/-- An envelope under the name of another type, or around bytes that are no message of the type. -/
def Any.Misfits (a : Any) (t : MessageType) : Prop :=
  a.typeName? ≠ some t.fullName ∨ ∃ e, t.decode a.value = .error e

/-- An execution whose first finished operation holds a response that is none. -/
structure LogEntry.Misanswers (entry : LogEntry) : Prop where
  /-- The call is an execution. -/
  plays : entry.Plays .execution
  /-- The response of the first finished operation is none of the expected type. -/
  misfit : ∃ op : Operation, op.IsFirstDoneOf entry.executions ∧ ∃ packed,
    op.result = some (.response packed) ∧ packed.Misfits .executeResponse

/-- A response cannot be had just where its envelope misfits. -/
theorem Any.unpackAs_error_iff (a : Any) (t : MessageType) :
    (∃ e, a.unpackAs t = .error e) ↔ a.Misfits t := by
  unfold Any.unpackAs Any.Misfits
  by_cases hn : a.typeName? = some t.fullName
  · rw [if_pos hn]
    cases t.decode a.value with
    | error e => exact iff_of_true ⟨_, rfl⟩ (.inr ⟨e, rfl⟩)
    | ok m =>
      refine iff_of_false (fun h => ?_) (fun h => ?_)
      · obtain ⟨e, h⟩ := h
        cases h
      · rcases h with h | ⟨e, h⟩
        · exact h hn
        · cases h
  · simp [hn]

namespace Operation

/-- There is no telling what an operation came to where its response misfits. -/
theorem conclude_error_iff (op : Operation) (t : MessageType) :
    (∃ e, op.conclude t = .error e) ↔
      op.done = true ∧ ∃ packed, op.result = some (.response packed) ∧ packed.Misfits t := by
  unfold conclude concludeResult
  cases op.done with
  | false => simp
  | true =>
    cases op.result with
    | none => simp
    | some result =>
      cases result with
      | error status => simp
      | response packed =>
        simp only [if_true, true_and, Option.some.injEq, OperationResult.response.injEq,
          exists_eq_left', ← Any.unpackAs_error_iff]
        cases packed.unpackAs t <;> simp [Except.map]

/-- An operation has failed where it is done with a status whose code says so. -/
theorem conclude_eq_failure_iff (op : Operation) (t : MessageType) (status : Status) :
    op.conclude t = .ok (.failure status) ↔
      op.done = true ∧ op.result = some (.error status) ∧ status.code ≠ 0 := by
  unfold conclude concludeResult
  cases op.done with
  | false => simp
  | true =>
    cases op.result with
    | none => simp
    | some result =>
      cases result with
      | error status' =>
        by_cases hc : status'.code = 0
        · simp only [hc, if_true, true_and, Except.ok.injEq, reduceCtorEq, Option.some.injEq,
            OperationResult.error.injEq, false_iff, not_and]
          intro h
          rw [← h]
          exact fun hn => hn hc
        · simp only [hc, if_false, if_true, true_and, Except.ok.injEq, Conclusion.failure.injEq,
            Option.some.injEq, OperationResult.error.injEq]
          constructor
          · intro h
            exact ⟨h, h ▸ hc⟩
          · intro h
            exact h.1
      | response packed => cases hu : packed.unpackAs t <;> simp [Except.map, hu]

end Operation

section

variable [KnownTypes]

/-- A response with something packed in it that cannot be displayed. -/
def Any.HidesUnsound (packed : Any) : Prop :=
  ∃ response : ExecuteResponse, packed.typeName? = some MessageType.executeResponse.fullName ∧
    MessageType.executeResponse.decode packed.value = .ok response ∧
      ∃ status, response.status = some status ∧ ∃ a ∈ status.details, ¬ a.Sound

/-- A failure with something packed in it that cannot be displayed. -/
def Status.HidesUnsound (status : Status) : Prop :=
  status.code ≠ 0 ∧ ∃ a ∈ status.details, ¬ a.Sound

/-- An execution whose first finished operation came to something that cannot be displayed. -/
structure LogEntry.Untellable (entry : LogEntry) : Prop where
  /-- The call is an execution. -/
  plays : entry.Plays .execution
  /-- The response or the failure has something packed in it that is not sound. -/
  unsound : ∃ op : Operation, op.IsFirstDoneOf entry.executions ∧
    ((∃ packed, op.result = some (.response packed) ∧ packed.HidesUnsound) ∨
      ∃ status, op.result = some (.error status) ∧ status.HidesUnsound)

namespace Operation

/-- What an operation came to, with something packed in it that is not sound. -/
theorem exists_unsound_conclusion_iff {op : Operation} (hd : op.done = true) :
    (∃ c, op.conclude .executeResponse = .ok c ∧ ∃ a ∈ c.envelopes, ¬ a.Sound) ↔
      (∃ packed, op.result = some (.response packed) ∧ packed.HidesUnsound) ∨
        ∃ status, op.result = some (.error status) ∧ status.HidesUnsound := by
  constructor
  · intro h
    obtain ⟨c, hc, a, ha, hs⟩ := h
    cases c with
    | success response =>
      obtain ⟨-, packed, hr, hu⟩ := (op.conclude_eq_success_iff _ response).mp hc
      obtain ⟨hn, hm⟩ := (packed.unpackAs_eq_ok_iff _ response).mp hu
      obtain ⟨status, hstatus, ha⟩ := mem_flatMap_toList.mp ha
      exact .inl ⟨packed, hr, response, hn, hm, status, hstatus, a, ha, hs⟩
    | failure status =>
      obtain ⟨-, hr, hcode⟩ := (op.conclude_eq_failure_iff _ status).mp hc
      exact .inr ⟨status, hr, hcode, a, ha, hs⟩
    | pending => cases ha
  · intro h
    rcases h with ⟨packed, hr, response, hn, hm, status, hstatus, a, ha, hs⟩ |
      ⟨status, hr, hcode, a, ha, hs⟩
    · have hu := (packed.unpackAs_eq_ok_iff .executeResponse response).mpr ⟨hn, hm⟩
      exact ⟨.success response, (op.conclude_eq_success_iff _ _).mpr ⟨hd, packed, hr, hu⟩, a,
        mem_flatMap_toList.mpr ⟨status, hstatus, ha⟩, hs⟩
    · exact ⟨.failure status, (op.conclude_eq_failure_iff _ _).mpr ⟨hd, hr, hcode⟩, a, ha, hs⟩

end Operation

/-- A response that has the blob, with details of its status that cannot be displayed. -/
def ExecuteResponse.corruptlyDetailed : ExecuteResponse :=
  .ofOutput { hash := "h", sizeBytes := 1 } [.corruptStatus]

namespace Stage

variable {entry : LogEntry} {target : Target}

/-- An entry leads nowhere only where it is the awaited execution. -/
theorem advance_eq_error_iff {stage : Stage} {e : AdvanceError} :
    stage.advance entry target = .error e ↔
      stage = .awaitExecute ∧ entry.Plays .execution ∧ onExecution entry target = .error e := by
  constructor
  · intro h
    cases hu : isUnrelated entry.methodName with
    | true =>
      rw [advance_of_unrelated stage hu] at h
      cases h
    | false =>
      obtain ⟨role, hp⟩ := exists_plays_of_related hu
      rw [advance_of_plays stage hp] at h
      cases stage with
      | awaitLookup => cases h
      | awaitUpload => cases h
      | awaitExecute =>
        cases role with
        | lookup => cases h
        | upload => cases h
        | execution => exact ⟨rfl, hp, h⟩
  · intro h
    obtain ⟨rfl, hp, he⟩ := h
    rw [advance_of_execution hp, he]

/-- The first execution fails on its response where it misanswers. -/
theorem onExecution_response_iff (hp : entry.Plays .execution) :
    (∃ e, onExecution entry target = .error (.response e)) ↔ entry.Misanswers := by
  constructor
  · intro h
    obtain ⟨e, h⟩ := h
    unfold onExecution at h
    split at h
    · cases h
    · next op hop =>
      have hfirst := (Operation.firstFinished?_eq_some_iff _ _).mp hop
      split at h
      · next e' hc =>
        obtain ⟨-, hm⟩ := (op.conclude_error_iff _).mp ⟨e', hc⟩
        exact ⟨hp, op, hfirst, hm⟩
      · split at h <;> cases h
  · intro h
    obtain ⟨-, op, hop, hm⟩ := h
    obtain ⟨e, he⟩ := (op.conclude_error_iff .executeResponse).mpr ⟨hop.1, hm⟩
    refine ⟨e, ?_⟩
    rw [onExecution_of_finished hop, he]

/-- The first execution fails on its wording where it is untellable. -/
theorem onExecution_rendering_iff (hp : entry.Plays .execution) :
    (∃ e, onExecution entry target = .error (.rendering e)) ↔ entry.Untellable := by
  constructor
  · intro h
    obtain ⟨e, h⟩ := h
    unfold onExecution at h
    split at h
    · cases h
    · next op hop =>
      have hfirst := (Operation.firstFinished?_eq_some_iff _ _).mp hop
      split at h
      · cases h
      · next c hc =>
        split at h
        · next hl =>
          have hunsound : ¬ ∀ a ∈ c.envelopes, a.Sound := by
            intro hs
            obtain ⟨lines, hok⟩ := (c.lines_iff "ExecuteResponse" "Operation").mpr hs
            rw [hl] at hok
            cases hok
          obtain ⟨a, ha⟩ := Classical.not_forall.mp hunsound
          obtain ⟨ha, hs⟩ := Classical.not_imp.mp ha
          exact ⟨hp, op, hfirst,
            (Operation.exists_unsound_conclusion_iff hfirst.1).mp ⟨c, hc, a, ha, hs⟩⟩
        · cases h
  · intro h
    obtain ⟨-, op, hop, hu⟩ := h
    obtain ⟨c, hc, a, ha, hs⟩ := (Operation.exists_unsound_conclusion_iff hop.1).mpr hu
    rw [onExecution_of_finished hop]
    simp only [hc]
    cases hl : c.lines "ExecuteResponse" "Operation" with
    | error e => exact ⟨e, rfl⟩
    | ok lines => exact absurd ((c.lines_iff _ _).mp ⟨lines, hl⟩ a ha) hs

/--
An entry leads nowhere for its response just where it is the awaited execution and misanswers,
and for want of a text just where it is that execution and untellable.
-/
theorem advance_fails_iff (stage : Stage) (entry : LogEntry) (target : Target) :
    ((∃ e, stage.advance entry target = .error (.response e)) ↔
        stage = .awaitExecute ∧ entry.Misanswers) ∧
      ((∃ e, stage.advance entry target = .error (.rendering e)) ↔
        stage = .awaitExecute ∧ entry.Untellable) := by
  simp only [advance_eq_error_iff, exists_and_left]
  constructor
  · constructor
    · intro h
      obtain ⟨hs, hp, he⟩ := h
      exact ⟨hs, (onExecution_response_iff hp).mp he⟩
    · intro h
      obtain ⟨hs, hm⟩ := h
      exact ⟨hs, hm.plays, (onExecution_response_iff hm.plays).mpr hm⟩
  · constructor
    · intro h
      obtain ⟨hs, hp, he⟩ := h
      exact ⟨hs, (onExecution_rendering_iff hp).mp he⟩
    · intro h
      obtain ⟨hs, hu⟩ := h
      exact ⟨hs, hu.plays, (onExecution_rendering_iff hu.plays).mpr hu⟩

end Stage

end

attribute [local instance] KnownTypes.ofLogs in
/-- The awaited execution leads nowhere although its response is of the expected type. -/
theorem Stage.advance_rendering_of_corrupt_detail :
    let packed := MessageType.executeResponse.pack ExecuteResponse.corruptlyDetailed
    let entry := LogEntry.ofExecution [.ofResponse packed]
    awaitExecute.advance entry ⟨"h", 1, by decide⟩ =
        .error (.rendering ⟨"google.rpc.Status", .corrupt⟩) ∧ ¬ entry.Misanswers := by
  intro packed entry
  have hp : entry.Plays .execution := LogEntry.plays_ofExecution _
  have hfirst : (Operation.ofResponse packed).IsFirstDoneOf entry.executions :=
    ⟨rfl, [], [], rfl, by simp⟩
  have hu : packed.unpackAs .executeResponse = .ok .corruptlyDetailed :=
    MessageType.unpackAs_pack (by decide) (by with_unfolding_all rfl)
  have hc := ((Operation.ofResponse packed).conclude_eq_success_iff .executeResponse _).mpr
    ⟨rfl, packed, rfl, hu⟩
  have htext : MessageType.executeResponse.text .corruptlyDetailed =
      .error ⟨"google.rpc.Status", .corrupt⟩ := by with_unfolding_all rfl
  have h : onExecution entry ⟨"h", 1, by decide⟩ =
      .error (.rendering ⟨"google.rpc.Status", .corrupt⟩) := by
    rw [onExecution_of_finished hfirst, hc]
    simp only [Conclusion.lines, htext]
    rfl
  refine ⟨(advance_of_execution hp _).trans h, ?_⟩
  intro hm
  obtain ⟨e, he⟩ := (onExecution_response_iff hp).mpr hm
  rw [h] at he
  cases he

end CallTrace
