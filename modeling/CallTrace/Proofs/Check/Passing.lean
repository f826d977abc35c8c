import CallTrace.Proofs.Check.Run
import CallTrace.Proofs.Message.Display

/-!
# The logs that pass

A log passes just where its calls that matter are a lookup of the blob, then
uploads of which one is of the blob, then an execution that produces it,
whatever follows. What is still missing of this at a stage is said for each
stage, and an entry takes a check from what is missing at its stage to what is
missing at the next.
-/

namespace CallTrace

/-- Calls that show the blob going through the cache: lookup, uploads, execution. -/
def Target.PassesThrough (target : Target) (calls : List LogEntry) : Prop :=
  ∃ (lookup : LogEntry) (uploads : List LogEntry) (execution : LogEntry) (rest : List LogEntry),
    calls = [lookup] ++ uploads ++ [execution] ++ rest ∧ lookup.LooksUp target ∧
      (∀ call ∈ uploads, call.Plays .upload) ∧ (∃ call ∈ uploads, call.Uploads target) ∧
      execution.Produces target

/-- Calls that show what a check at the given stage still waits for. -/
def Stage.Completes (target : Target) : Stage → List LogEntry → Prop
  | .awaitLookup, calls => target.PassesThrough calls
  | .awaitUpload, calls =>
    ∃ (uploads : List LogEntry) (execution : LogEntry) (rest : List LogEntry),
      calls = uploads ++ execution :: rest ∧ (∀ call ∈ uploads, call.Plays .upload) ∧
        (∃ call ∈ uploads, call.Uploads target) ∧ execution.Produces target
  | .awaitExecute, calls =>
    ∃ (uploads : List LogEntry) (execution : LogEntry) (rest : List LogEntry),
      calls = uploads ++ execution :: rest ∧ (∀ call ∈ uploads, call.Plays .upload) ∧
        execution.Produces target

namespace Stage

variable {target : Target} {call : LogEntry} {calls : List LogEntry}

/-- Without calls everything is still missing. -/
theorem not_completes_nil (target : Target) (stage : Stage) : ¬ stage.Completes target [] := by
  intro h
  cases stage with
  | awaitLookup =>
    obtain ⟨lookup, uploads, execution, rest, h, -⟩ := h
    simp at h
  | awaitUpload =>
    obtain ⟨uploads, execution, rest, h, -⟩ := h
    simp at h
  | awaitExecute =>
    obtain ⟨uploads, execution, rest, h, -⟩ := h
    simp at h

/-- The first call has to be the lookup. -/
theorem completes_lookup_cons :
    awaitLookup.Completes target (call :: calls) ↔
      call.LooksUp target ∧ awaitUpload.Completes target calls := by
  constructor
  · intro h
    obtain ⟨lookup, uploads, execution, rest, h, hl, hu⟩ := h
    simp only [List.cons_append, List.nil_append, List.append_assoc, List.cons.injEq] at h
    obtain ⟨rfl, rfl⟩ := h
    exact ⟨hl, uploads, execution, rest, rfl, hu⟩
  · intro h
    obtain ⟨hl, uploads, execution, rest, rfl, hu⟩ := h
    exact ⟨call, uploads, execution, rest, by simp, hl, hu⟩

/-- After the upload of the blob any uploads may follow. -/
theorem completes_upload_cons (h : call.Uploads target) :
    awaitUpload.Completes target (call :: calls) ↔ awaitExecute.Completes target calls := by
  constructor
  · intro h
    obtain ⟨uploads, execution, rest, he, hu, hn, hp⟩ := h
    cases uploads with
    | nil =>
      obtain ⟨rfl, rfl⟩ := List.cons.inj he
      cases hp.plays.unique h.plays
    | cons u uploads =>
      obtain ⟨rfl, rfl⟩ := List.cons.inj he
      exact ⟨uploads, execution, rest, rfl, fun x hx => hu x (List.mem_cons_of_mem _ hx), hp⟩
  · intro h
    obtain ⟨uploads, execution, rest, rfl, hu, hp⟩ := h
    refine ⟨call :: uploads, execution, rest, rfl, ?_, ⟨call, List.mem_cons_self, h⟩, hp⟩
    exact List.forall_mem_cons.mpr ⟨h.plays, hu⟩

/-- An upload of something else leaves missing what was. -/
theorem completes_other_upload_cons (h : call.Plays .upload) (hn : ¬ call.Uploads target) :
    awaitUpload.Completes target (call :: calls) ↔ awaitUpload.Completes target calls := by
  constructor
  · intro h
    obtain ⟨uploads, execution, rest, he, hu, ⟨u, hmem, hup⟩, hp⟩ := h
    cases uploads with
    | nil => simp at hmem
    | cons x uploads =>
      obtain ⟨rfl, rfl⟩ := List.cons.inj he
      rcases List.mem_cons.mp hmem with rfl | hmem
      · exact absurd hup hn
      · exact ⟨uploads, execution, rest, rfl, fun x hx => hu x (List.mem_cons_of_mem _ hx),
          ⟨u, hmem, hup⟩, hp⟩
  · intro h
    obtain ⟨uploads, execution, rest, rfl, hu, ⟨u, hmem, hup⟩, hp⟩ := h
    refine ⟨call :: uploads, execution, rest, rfl, ?_, ⟨u, List.mem_cons_of_mem _ hmem, hup⟩, hp⟩
    exact List.forall_mem_cons.mpr ⟨h, hu⟩

/-- While the upload is missing, no call of another role may come. -/
theorem not_completes_of_no_upload {role : Role} (h : call.Plays role) (hr : role ≠ .upload) :
    ¬ awaitUpload.Completes target (call :: calls) := by
  intro h
  obtain ⟨uploads, execution, rest, he, hu, ⟨u, hmem, -⟩, -⟩ := h
  cases uploads with
  | nil => simp at hmem
  | cons x uploads =>
    obtain ⟨rfl, rfl⟩ := List.cons.inj he
    exact hr (h.unique (hu call List.mem_cons_self))

/-- Uploads before the execution leave missing what was. -/
theorem completes_late_upload_cons (h : call.Plays .upload) :
    awaitExecute.Completes target (call :: calls) ↔ awaitExecute.Completes target calls := by
  constructor
  · intro h
    obtain ⟨uploads, execution, rest, he, hu, hp⟩ := h
    cases uploads with
    | nil =>
      obtain ⟨rfl, rfl⟩ := List.cons.inj he
      cases hp.plays.unique h
    | cons x uploads =>
      obtain ⟨rfl, rfl⟩ := List.cons.inj he
      exact ⟨uploads, execution, rest, rfl, fun x hx => hu x (List.mem_cons_of_mem _ hx), hp⟩
  · intro h
    obtain ⟨uploads, execution, rest, rfl, hu, hp⟩ := h
    exact ⟨call :: uploads, execution, rest, rfl, List.forall_mem_cons.mpr ⟨h, hu⟩, hp⟩

/-- Any other call has to be the execution. -/
theorem completes_execution_cons {role : Role} (h : call.Plays role) (hr : role ≠ .upload) :
    awaitExecute.Completes target (call :: calls) ↔ call.Produces target := by
  constructor
  · intro h
    obtain ⟨uploads, execution, rest, he, hu, hp⟩ := h
    cases uploads with
    | nil =>
      obtain ⟨rfl, rfl⟩ := List.cons.inj he
      exact hp
    | cons x uploads =>
      obtain ⟨rfl, rfl⟩ := List.cons.inj he
      exact absurd (h.unique (hu call List.mem_cons_self)) hr
  · intro hp
    exact ⟨[], call, calls, rfl, by simp, hp⟩

variable [KnownTypes]

/-- A check of calls that matter passes just where they show what was still missing. -/
theorem passes_run_iff (target : Target) (stage : Stage) (calls : List LogEntry)
    (hm : ∀ call ∈ calls, isUnrelated call.methodName = false)
    (hd : ∀ call ∈ calls, ∀ op ∈ call.executions, op.Describable) :
    Passes (stage.run target calls).outcome ↔ stage.Completes target calls := by
  induction calls generalizing stage with
  | nil =>
    exact ⟨fun h => absurd h (not_passes_ranOut stage),
      fun h => absurd h (not_completes_nil target stage)⟩
  | cons call calls ih =>
    obtain ⟨hm₁, hm⟩ := List.forall_mem_cons.mp hm
    obtain ⟨hd₁, hd⟩ := List.forall_mem_cons.mp hd
    obtain ⟨role, hp⟩ := exists_plays_of_related hm₁
    cases stage with
    | awaitLookup =>
      rw [completes_lookup_cons]
      by_cases hl : call.LooksUp target
      · rw [run_of_goOn (advance_of_looksUp hl) rfl]
        exact (ih .awaitUpload hm hd).trans (and_iff_right hl).symm
      · obtain ⟨v, hv⟩ := advance_of_not_looksUp hp hl
        rw [run_of_violation hv]
        exact iff_of_false (not_passes_violation _ _) fun h => hl h.1
    | awaitUpload =>
      by_cases hr : role = .upload
      · subst hr
        by_cases hu : call.Uploads target
        · rw [run_of_goOn (advance_of_uploads hu) rfl, completes_upload_cons hu]
          exact ih .awaitExecute hm hd
        · rw [run_of_goOn (advance_of_other_upload hp hu) rfl, completes_other_upload_cons hp hu]
          exact ih .awaitUpload hm hd
      · obtain ⟨v, hv⟩ := advance_of_no_upload hp hr target
        rw [run_of_violation hv]
        exact iff_of_false (not_passes_violation _ _) (not_completes_of_no_upload hp hr)
    | awaitExecute =>
      cases role with
      | upload =>
        rw [run_of_goOn (advance_of_late_upload hp target) rfl, completes_late_upload_cons hp]
        exact ih .awaitExecute hm hd
      | lookup =>
        obtain ⟨v, hv⟩ := advance_of_late_lookup hp target
        rw [run_of_violation hv, completes_execution_cons hp (by decide)]
        exact iff_of_false (not_passes_violation _ _) fun h => by cases h.plays.unique hp
      | execution =>
        rw [completes_execution_cons hp (by decide), ← passes_onExecution_iff hp hd₁ target,
          outcome_run_execution hp]

end Stage

/--
A quiet session over a list of entries passes just where the calls that matter show the blob
going through the cache, if the operations in the entries can be told of.
-/
theorem takeAll_passes_iff [KnownTypes] (target : Target) (entries : List LogEntry)
    (hd : ∀ entry ∈ entries, ∀ op ∈ entry.executions, op.Describable) :
    Passes (({ target := target, verbose := false } : Session).takeAll entries).1.outcome ↔
      target.PassesThrough (entries.filter fun entry => !isUnrelated entry.methodName) := by
  rw [(Session.takeAll_of_quiet rfl entries).1, ← Stage.outcome_run_filter]
  refine Stage.passes_run_iff target .awaitLookup _ ?_ ?_
  · intro call hc
    simpa using (List.mem_filter.mp hc).2
  · intro call hc
    exact hd call (List.mem_filter.mp hc).1

/-- A response with the blob of one byte that the samples are about. -/
def ExecuteResponse.sample : ExecuteResponse := .ofOutput { hash := "h", sizeBytes := 1 } []

/-- An execution that streams an operation on its way and one with the response. -/
def LogEntry.sampleExecution : LogEntry :=
  .ofExecution
    [{ name := "op" }, .ofResponse (MessageType.executeResponse.pack ExecuteResponse.sample)]

/-- A log in which the blob goes through the cache, among other calls. -/
def sampleLog : List LogEntry :=
  [ .ofLookup [{ hash := "g", sizeBytes := 2 }, { hash := "h", sizeBytes := 1 }],
    { methodName := "/ByteStream/Read" },
    .ofUpload ["uploads/1/blobs/g/2"],
    .ofUpload ["uploads/2/blobs/h/1"],
    .sampleExecution,
    .ofExecution [] ]

theorem ExecuteResponse.unpackAs_sample :
    (MessageType.executeResponse.pack ExecuteResponse.sample).unpackAs .executeResponse =
      .ok ExecuteResponse.sample :=
  MessageType.unpackAs_pack (by decide) (by with_unfolding_all rfl)

theorem LogEntry.describable_sampleExecution [KnownTypes] :
    ∀ op ∈ LogEntry.sampleExecution.executions, op.Describable := by
  intro op hop c hc
  refine (c.lines_iff _ _).mpr ?_
  have hops : op ∈ [({ name := "op" } : Operation),
      .ofResponse (MessageType.executeResponse.pack ExecuteResponse.sample)] := hop
  simp only [List.mem_cons, List.not_mem_nil, or_false] at hops
  rcases hops with rfl | rfl
  · cases hc
    intro a ha
    cases ha
  · have hs : (Operation.ofResponse (MessageType.executeResponse.pack
        ExecuteResponse.sample)).conclude .executeResponse = .ok (.success .sample) :=
      (Operation.conclude_eq_success_iff _ _ _).mpr
        ⟨rfl, _, rfl, ExecuteResponse.unpackAs_sample⟩
    cases hs.symm.trans hc
    intro a ha
    cases ha

theorem LogEntry.produces_sampleExecution :
    LogEntry.sampleExecution.Produces ⟨"h", 1, by decide⟩ where
  plays := LogEntry.plays_ofExecution _
  output := by
    refine ⟨.ofResponse (MessageType.executeResponse.pack ExecuteResponse.sample), ?_, _, rfl, _,
      ExecuteResponse.unpackAs_sample, ?_⟩
    · exact ⟨rfl, [{ name := "op" }], [], rfl, by simp⟩
    · exact ⟨_, rfl, _, List.mem_cons_self, _, rfl, rfl, by decide⟩

attribute [local instance] KnownTypes.ofLogs in
theorem takeAll_passes_sample :
    (∀ entry ∈ sampleLog, ∀ op ∈ entry.executions, op.Describable) ∧
      Passes (({ target := ⟨"h", 1, by decide⟩, verbose := false } : Session).takeAll
        sampleLog).1.outcome := by
  have hd : ∀ entry ∈ sampleLog, ∀ op ∈ entry.executions, op.Describable := by
    have hn : ∀ op ∈ ([] : List Operation), op.Describable := by simp
    simp only [sampleLog, List.forall_mem_cons, List.not_mem_nil, false_implies, implies_true,
      and_true]
    exact ⟨hn, hn, hn, hn, LogEntry.describable_sampleExecution, hn⟩
  have hread : isUnrelated "/ByteStream/Read" = true := by decide
  have hlookup : ∀ digests, isUnrelated (LogEntry.ofLookup digests).methodName = false :=
    fun digests => (LogEntry.plays_ofLookup digests).related
  have hupload : ∀ names, isUnrelated (LogEntry.ofUpload names).methodName = false :=
    fun names => (LogEntry.plays_ofUpload names).related
  have hexecution : ∀ ops, isUnrelated (LogEntry.ofExecution ops).methodName = false :=
    fun ops => (LogEntry.plays_ofExecution ops).related
  have hcalls : sampleLog.filter (fun entry => !isUnrelated entry.methodName) =
      [ LogEntry.ofLookup [{ hash := "g", sizeBytes := 2 }, { hash := "h", sizeBytes := 1 }],
        LogEntry.ofUpload ["uploads/1/blobs/g/2"], LogEntry.ofUpload ["uploads/2/blobs/h/1"],
        LogEntry.sampleExecution, LogEntry.ofExecution [] ] := by
    simp [sampleLog, LogEntry.sampleExecution, hread, hlookup, hupload, hexecution]
  refine ⟨hd, (takeAll_passes_iff _ _ hd).mpr ?_⟩
  rw [hcalls]
  refine ⟨_, [_, _], _, _, rfl, ⟨?_, ?_⟩, ?_, ?_, LogEntry.produces_sampleExecution⟩
  · exact LogEntry.plays_ofLookup _
  · exact ⟨_, List.mem_cons_of_mem _ List.mem_cons_self, rfl, by decide⟩
  · simp [LogEntry.plays_ofUpload]
  · refine ⟨_, List.mem_cons_of_mem _ List.mem_cons_self, LogEntry.plays_ofUpload _, _,
      List.mem_cons_self, ?_⟩
    unfold Target.Ends
    decide

end CallTrace
