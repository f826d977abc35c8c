import CallTrace.Proofs.Check.Calls

/-!
# What one entry does to a check

One lemma for each way in which an entry moves a check on, keeps it where it
is or ends it, by the stage and by what the call is. A check ends at any call
of a role that its stage does not wait for; only an execution is looked at
more closely, and only it can fail to lead anywhere.
-/

namespace CallTrace

/-- The stage at which a violation is found. -/
def Violation.ArisesAt : Violation → Stage → Prop
  | .unexpectedMethod awaited _ _, stage => stage = awaited
  | .missingLookupDigest _, stage => stage = .awaitLookup
  | .missingDoneResponse, stage => stage = .awaitExecute
  | .unexpectedResponse, stage => stage = .awaitExecute
  | .missingOutputDigest _, stage => stage = .awaitExecute

namespace Stage

variable {entry : LogEntry} {target : Target}

/-- What an execution is found to be: the pass of its target, or a violation. -/
theorem findingOf_cases (target : Target) (c : Conclusion .executeResponse) :
    findingOf target c = .passed target.hash ∨
      ∃ v : Violation, findingOf target c = .violated v ∧ v.ArisesAt .awaitExecute := by
  cases c with
  | success payload =>
    rw [findingOf]
    split
    · exact .inl rfl
    · exact .inr ⟨_, rfl, rfl⟩
  | failure status => exact .inr ⟨_, rfl, rfl⟩
  | pending => exact .inr ⟨_, rfl, rfl⟩

variable [KnownTypes]

/-- An unrelated call leaves the check where it is. -/
theorem advance_of_unrelated (stage : Stage) (h : isUnrelated entry.methodName = true)
    (target : Target) :
    stage.advance entry target = .ok { stage := stage, ruling := .goOn none } := by
  unfold advance
  rw [Option.isNone_iff_eq_none.mp h]

/-- A call with a role is treated by the stage. -/
theorem advance_of_plays (stage : Stage) {role : Role} (h : entry.Plays role) (target : Target) :
    stage.advance entry target =
      match stage with
      | .awaitLookup => .ok (onLookup entry role target)
      | .awaitUpload => .ok (onUpload entry role target)
      | .awaitExecute => onExecute entry role target := by
  have hr := (Role.ofMethod?_eq_some_iff _ _).mpr h
  cases stage <;> simp only [advance, hr]

/-- The lookup of the blob is followed by the wait for its upload. -/
theorem advance_of_looksUp (h : entry.LooksUp target) :
    awaitLookup.advance entry target =
      .ok { stage := .awaitUpload, ruling := .goOn (some (.lookupFound target.hash)) } := by
  have hl := (target.isListedIn_iff entry.lookedUp).mpr h.listed
  rw [advance_of_plays _ h.plays]
  simp only [onLookup, hl, if_true]

/-- Any other call that matters ends the wait for a lookup. -/
theorem advance_of_not_looksUp {role : Role} (hp : entry.Plays role)
    (h : ¬ entry.LooksUp target) :
    ∃ v, awaitLookup.advance entry target = .ok (.violation .awaitLookup v) := by
  rw [advance_of_plays _ hp]
  cases role with
  | lookup =>
    have hl : ¬ target.isListedIn entry.lookedUp = true := fun hl =>
      h ⟨hp, (target.isListedIn_iff _).mp hl⟩
    refine ⟨.missingLookupDigest target.hash, ?_⟩
    simp only [onLookup, if_neg hl]
  | upload => exact ⟨_, rfl⟩
  | execution => exact ⟨_, rfl⟩

/-- The upload of the blob is followed by the wait for its execution. -/
theorem advance_of_uploads (h : entry.Uploads target) :
    awaitUpload.advance entry target =
      .ok { stage := .awaitExecute, ruling := .goOn (some (.uploadFound target.hash)) } := by
  have hn := (target.endsSome_iff entry.uploadedNames).mpr h.named
  rw [advance_of_plays _ h.plays]
  simp only [onUpload, hn, if_true]

/-- The upload of something else is tolerated. -/
theorem advance_of_other_upload (hp : entry.Plays .upload) (h : ¬ entry.Uploads target) :
    awaitUpload.advance entry target =
      .ok { stage := .awaitUpload, ruling := .goOn (some .otherUpload) } := by
  have hn : ¬ target.endsSome entry.uploadedNames = true := fun hn =>
    h ⟨hp, (target.endsSome_iff _).mp hn⟩
  rw [advance_of_plays _ hp]
  simp only [onUpload, if_neg hn]

/-- A lookup or an execution ends the wait for an upload. -/
theorem advance_of_no_upload {role : Role} (hp : entry.Plays role) (h : role ≠ .upload)
    (target : Target) :
    ∃ v, awaitUpload.advance entry target = .ok (.violation .awaitUpload v) := by
  rw [advance_of_plays _ hp]
  cases role with
  | lookup => exact ⟨_, rfl⟩
  | upload => exact absurd rfl h
  | execution => exact ⟨_, rfl⟩

/-- An upload after that of the blob is tolerated. -/
theorem advance_of_late_upload (hp : entry.Plays .upload) (target : Target) :
    awaitExecute.advance entry target = .ok { stage := .awaitExecute, ruling := .goOn none } :=
  advance_of_plays _ hp target

/-- A lookup ends the wait for an execution. -/
theorem advance_of_late_lookup (hp : entry.Plays .lookup) (target : Target) :
    ∃ v, awaitExecute.advance entry target = .ok (.violation .awaitExecute v) :=
  ⟨_, advance_of_plays _ hp target⟩

/-- The first execution decides the check. -/
theorem advance_of_execution (hp : entry.Plays .execution) (target : Target) :
    awaitExecute.advance entry target = onExecution entry target :=
  advance_of_plays _ hp target

/-- An execution without a finished operation is a violation. -/
theorem onExecution_of_unfinished
    (h : ∀ op : Operation, ¬ op.IsFirstDoneOf entry.executions)
    (target : Target) :
    onExecution entry target = .ok (.violation .awaitExecute .missingDoneResponse) := by
  have hn : Operation.firstFinished? entry.executions = none := by
    rw [Option.eq_none_iff_forall_not_mem]
    intro op hop
    exact h op ((Operation.firstFinished?_eq_some_iff _ _).mp hop)
  unfold onExecution
  rw [hn]

/-- An execution is judged by its first finished operation. -/
theorem onExecution_of_finished {op : Operation} (h : op.IsFirstDoneOf entry.executions)
    (target : Target) :
    onExecution entry target =
      match op.conclude .executeResponse with
      | .error e => .error (.response e)
      | .ok conclusion =>
        match conclusion.lines "ExecuteResponse" "Operation" with
        | .error e => .error (.rendering e)
        | .ok notes => .ok ⟨.awaitExecute, .final (findingOf target conclusion), notes⟩ := by
  have hf := (Operation.firstFinished?_eq_some_iff _ _).mpr h
  cases hc : op.conclude .executeResponse with
  | error e => simp only [onExecution, hf, hc]
  | ok conclusion =>
    cases hl : conclusion.lines "ExecuteResponse" "Operation" <;>
      simp only [onExecution, hf, hc, hl]

/-- An execution that leads somewhere ends the check. -/
theorem final_of_onExecution {a : Advance} (h : onExecution entry target = .ok a) :
    ∃ f, a.ruling = .final f := by
  unfold onExecution at h
  split at h
  · cases h
    exact ⟨_, rfl⟩
  · split at h
    · cases h
    · split at h
      · cases h
      · cases h
        exact ⟨_, rfl⟩

/-- An entry lets the check go on, or ends it where it stands, with a pass or a violation there. -/
theorem advance_cases {stage : Stage} {a : Advance} (h : stage.advance entry target = .ok a) :
    (∃ m, a.ruling = .goOn m) ∨ a.stage = stage ∧
      (stage = .awaitExecute ∧ a.ruling = .final (.passed target.hash) ∨
        ∃ v : Violation, a.ruling = .final (.violated v) ∧ v.ArisesAt stage) := by
  cases hu : isUnrelated entry.methodName with
  | true =>
    rw [advance_of_unrelated stage hu] at h
    cases h
    exact .inl ⟨_, rfl⟩
  | false =>
    obtain ⟨role, hp⟩ := exists_plays_of_related hu
    rw [advance_of_plays stage hp] at h
    cases stage with
    | awaitLookup =>
      cases h
      cases role with
      | lookup =>
        unfold onLookup
        dsimp only
        split
        · exact .inl ⟨_, rfl⟩
        · exact .inr ⟨rfl, .inr ⟨_, rfl, rfl⟩⟩
      | upload => exact .inr ⟨rfl, .inr ⟨_, rfl, rfl⟩⟩
      | execution => exact .inr ⟨rfl, .inr ⟨_, rfl, rfl⟩⟩
    | awaitUpload =>
      cases h
      cases role with
      | upload =>
        unfold onUpload
        dsimp only
        split
        · exact .inl ⟨_, rfl⟩
        · exact .inl ⟨_, rfl⟩
      | lookup => exact .inr ⟨rfl, .inr ⟨_, rfl, rfl⟩⟩
      | execution => exact .inr ⟨rfl, .inr ⟨_, rfl, rfl⟩⟩
    | awaitExecute =>
      cases role with
      | upload =>
        cases h
        exact .inl ⟨_, rfl⟩
      | lookup =>
        cases h
        exact .inr ⟨rfl, .inr ⟨_, rfl, rfl⟩⟩
      | execution =>
        have he : onExecution entry target = .ok a := h
        unfold onExecution at he
        split at he
        · cases he
          exact .inr ⟨rfl, .inr ⟨_, rfl, rfl⟩⟩
        · split at he
          · cases he
          · next c _ =>
            split at he
            · cases he
            · cases he
              rcases findingOf_cases target c with hf | ⟨v, hf, hv⟩
              · exact .inr ⟨rfl, .inl ⟨rfl, by rw [hf]⟩⟩
              · exact .inr ⟨rfl, .inr ⟨v, by rw [hf], hv⟩⟩

end Stage

/-- A streamed list of operations has at most one first finished one. -/
theorem Operation.IsFirstDoneOf.unique {op op' : Operation} {ops : List Operation}
    (h : op.IsFirstDoneOf ops) (h' : op'.IsFirstDoneOf ops) : op = op' := by
  rw [← Operation.firstFinished?_eq_some_iff] at h h'
  rw [h] at h'
  exact Option.some.inj h'

/-- The finding on a conclusion is a pass just where the conclusion is a success with the blob. -/
theorem Stage.findingOf_eq_passed_iff (target : Target) (c : Conclusion .executeResponse) :
    (Stage.findingOf target c).verdict = .pass ↔
      ∃ response : ExecuteResponse, c = .success response ∧ response.Outputs target := by
  cases c with
  | success payload =>
    rw [Stage.findingOf]
    split
    · next h =>
      have ho := (ExecuteResponse.isListedIn_outputDigests_iff payload target).mp h
      exact ⟨fun _ => ⟨payload, rfl, ho⟩, fun _ => rfl⟩
    · next h =>
      constructor
      · intro hv
        cases hv
      · intro h
        obtain ⟨response, hr, ho⟩ := h
        cases hr
        exact absurd ((ExecuteResponse.isListedIn_outputDigests_iff payload target).mpr ho) h
  | failure status => simp [Stage.findingOf, Finding.verdict]
  | pending => simp [Stage.findingOf, Finding.verdict]

namespace Advance

variable {a : Advance} {f : Finding}

theorem finding?_of_final (h : a.ruling = .final f) : a.finding? = some f := by
  rw [finding?, h]

theorem verdict?_of_goOn {m : Option Milestone} (h : a.ruling = .goOn m) : a.verdict? = none := by
  rw [verdict?, finding?, h, Option.map_none]

theorem verdict?_of_final (h : a.ruling = .final f) : a.verdict? = some f.verdict := by
  rw [verdict?, finding?_of_final h, Option.map_some]

end Advance

/-- Whether a check has ended well. -/
def Passes (outcome : Except AdvanceError Advance) : Prop :=
  ∃ a, outcome = .ok a ∧ a.verdict? = some .pass

theorem not_passes_error (e : AdvanceError) : ¬ Passes (.error e) := by
  intro h
  obtain ⟨a, h, -⟩ := h
  cases h

theorem not_passes_violation (stage : Stage) (v : Violation) :
    ¬ Passes (.ok (.violation stage v)) := by
  intro h
  obtain ⟨a, h, hv⟩ := h
  cases h
  cases hv

theorem not_passes_ranOut (stage : Stage) : ¬ Passes (.ok stage.ranOut) := by
  intro h
  obtain ⟨a, h, hv⟩ := h
  cases h
  cases hv

/-- An execution produces the blob just where its first finished operation came to a success. -/
theorem LogEntry.produces_iff {entry : LogEntry} (hp : entry.Plays .execution) {op : Operation}
    (hop : op.IsFirstDoneOf entry.executions) (target : Target) :
    entry.Produces target ↔ ∃ response : ExecuteResponse,
      op.conclude .executeResponse = .ok (.success response) ∧ response.Outputs target := by
  constructor
  · intro h
    obtain ⟨-, op', hop', packed, hr, response, hu, ho⟩ := h
    cases hop.unique hop'
    exact ⟨response, (op.conclude_eq_success_iff _ _).mpr ⟨hop.1, packed, hr, hu⟩, ho⟩
  · intro h
    obtain ⟨response, hc, ho⟩ := h
    obtain ⟨-, packed, hr, hu⟩ := (op.conclude_eq_success_iff _ _).mp hc
    exact ⟨hp, op, hop, packed, hr, response, hu, ho⟩

variable [KnownTypes]

/-- A check passes only while it waits for an execution, and it passes with its target. -/
theorem Stage.ruling_of_pass {stage : Stage} {entry : LogEntry} {target : Target} {a : Advance}
    (ha : stage.advance entry target = .ok a) (hv : a.verdict? = some .pass) :
    stage = .awaitExecute ∧ a.ruling = .final (.passed target.hash) := by
  rcases advance_cases ha with ⟨m, hm⟩ | ⟨-, hpassed | ⟨v, hf, -⟩⟩
  · cases hv.symm.trans (Advance.verdict?_of_goOn hm)
  · exact hpassed
  · cases hv.symm.trans (Advance.verdict?_of_final hf)

/-- What an operation came to can be told in lines. -/
def Operation.Describable (op : Operation) : Prop :=
  ∀ c, op.conclude .executeResponse = .ok c →
    ∃ lines, c.lines "ExecuteResponse" "Operation" = .ok lines

/-- An execution of operations that can be told of passes just where it produces the blob. -/
theorem Stage.passes_onExecution_iff {entry : LogEntry} (hp : entry.Plays .execution)
    (hd : ∀ op ∈ entry.executions, op.Describable) (target : Target) :
    Passes (Stage.onExecution entry target) ↔ entry.Produces target := by
  by_cases hf : ∃ op : Operation, op.IsFirstDoneOf entry.executions
  · obtain ⟨op, hop⟩ := hf
    have hmem : op ∈ entry.executions := by
      obtain ⟨-, before, after, he, -⟩ := hop
      simp [he]
    rw [LogEntry.produces_iff hp hop, Stage.onExecution_of_finished hop]
    cases hc : op.conclude .executeResponse with
    | error e => simp [not_passes_error]
    | ok c =>
      obtain ⟨notes, hl⟩ := hd op hmem c hc
      simp only [hl, Except.ok.injEq]
      rw [← Stage.findingOf_eq_passed_iff target c]
      simp [Passes, Advance.verdict?, Advance.finding?]
  · have hn := not_exists.mp hf
    rw [Stage.onExecution_of_unfinished hn]
    constructor
    · intro h
      exact absurd h (not_passes_violation _ _)
    · intro h
      obtain ⟨-, op, hop, -⟩ := h
      exact absurd hop (hn op)

end CallTrace
