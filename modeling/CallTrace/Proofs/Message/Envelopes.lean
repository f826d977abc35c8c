import CallTrace.Proofs.Message.Shown

/-!
# The packed messages in a message

The envelopes of a message are the packed messages that its text shows, in the
message itself and in the messages within it, but not those packed in one of
the envelopes. They are all that the text of a message hangs on: a message can
be displayed where each of its envelopes can.
-/

namespace CallTrace

/-- The packed details of a status. -/
def Status.envelopes (status : Status) : List Any := status.details

/-- The packed details of a failure, or the packed response. -/
def OperationResult.envelopes : OperationResult → List Any
  | .error status => status.envelopes
  | .response packed => [packed]

/-- The packed metadata of an operation, and what is packed in its result. -/
def Operation.envelopes (op : Operation) : List Any :=
  op.metadata.toList ++ op.result.toList.flatMap OperationResult.envelopes

/-- The packed details of the status of a response. -/
def ExecuteResponse.envelopes (response : ExecuteResponse) : List Any :=
  response.status.toList.flatMap Status.envelopes

/-- What is packed in the operations of an execution. -/
def ExecuteDetails.envelopes (details : ExecuteDetails) : List Any :=
  details.responses.flatMap Operation.envelopes

/-- What is packed in the operations that were waited for. -/
def WaitExecutionDetails.envelopes (details : WaitExecutionDetails) : List Any :=
  details.responses.flatMap Operation.envelopes

/-- What is packed in the details of a call; only two kinds of call have operations. -/
def CallDetails.envelopes : CallDetails → List Any
  | .execute details => details.envelopes
  | .waitExecution details => details.envelopes
  | _ => []

/-- What is packed in the details of a call, if there are any. -/
def RpcCallDetails.envelopes (details : RpcCallDetails) : List Any :=
  details.call.toList.flatMap CallDetails.envelopes

/-- What is packed in the status of a call and in its details. -/
def LogEntry.envelopes (entry : LogEntry) : List Any :=
  entry.status.toList.flatMap Status.envelopes ++
    entry.details.toList.flatMap RpcCallDetails.envelopes

/-- The envelopes of a message of any type; most types have no place for one. -/
def MessageType.envelopes : (t : MessageType) → t.Message → List Any
  | .any, (m : Any) => [m]
  | .status, (m : Status) => m.envelopes
  | .operation, (m : Operation) => m.envelopes
  | .executeResponse, (m : ExecuteResponse) => m.envelopes
  | .executeDetails, (m : ExecuteDetails) => m.envelopes
  | .waitExecutionDetails, (m : WaitExecutionDetails) => m.envelopes
  | .rpcCallDetails, (m : RpcCallDetails) => m.envelopes
  | .logEntry, (m : LogEntry) => m.envelopes
  | _, _ => []

section Results

variable {α β ε ε' : Type}

theorem isOk_iff {x : Except ε α} : x.isOk = true ↔ ∃ v, x = .ok v := by
  cases x <;> simp [Except.isOk, Except.toBool]

@[simp] theorem isOk_ok (v : α) : (Except.ok v : Except ε α).isOk = true := rfl

@[simp] theorem isOk_error (e : ε) : (Except.error e : Except ε α).isOk = false := rfl

/-- What is made of a result is there where the result is. -/
theorem map_eq_ok_iff {f : α → β} {x : Except ε α} {b : β} :
    x.map f = .ok b ↔ ∃ v, x = .ok v ∧ f v = b := by
  cases x <;> simp [Except.map]

/-- What goes on from a result is there where the result is and what goes on from it. -/
theorem bind_eq_ok_iff {f : α → Except ε β} {x : Except ε α} {b : β} :
    x >>= f = .ok b ↔ ∃ v, x = .ok v ∧ f v = .ok b := by
  cases x <;> simp [bind, Except.bind]

/-- Nodes are there just where there are nodes with a property that all have. -/
theorem isOk_iff_shown {x : Except DecodeError (List TextNode)} :
    x.isOk = true ↔ Shown (fun _ => True) x := by
  rw [isOk_iff]
  simp [Shown]

@[simp] theorem isOk_map (f : α → β) (x : Except ε α) : (x.map f).isOk = x.isOk := by
  cases x <;> rfl

/-- A list is mapped without a fault where each of its members is. -/
theorem isOk_mapM (f : α → Except ε β) (xs : List α) :
    (xs.mapM f).isOk = xs.all fun x => (f x).isOk := by
  induction xs with
  | nil => rfl
  | cons x xs ih =>
    rw [List.mapM_cons, List.all_cons, ← ih]
    cases f x with
    | error e => rfl
    | ok y => cases xs.mapM f <;> rfl

end Results

/-- The types that have no place for an envelope, however deep. -/
def MessageType.isPlain : MessageType → Bool
  | .any | .status | .operation | .executeResponse | .executeDetails | .waitExecutionDetails
  | .rpcCallDetails | .logEntry => false
  | _ => true

section Displays

variable {Q : TextNode → Prop} (hQ : TextNode.Regular Q) (unpack : Unpacker)
include hQ

/-- A status is shown by its packed details. -/
theorem Status.shown_nodes (m : Status) :
    Shown Q (Status.layout.nodes unpack m) ↔ ∀ a ∈ m.envelopes, Shown Q (unpack a) := by
  rw [Layout.shown_nodes]
  simp +decide [Status.layout, Any.layout, Layout.shown_nodes, Status.envelopes, hQ.shown_word,
    hQ.shown_text, hQ.shown_messages]

/-- An operation is shown by its metadata and what is packed in its result. -/
theorem Operation.shown_nodes (m : Operation) :
    Shown Q (Operation.layout.nodes unpack m) ↔ ∀ a ∈ m.envelopes, Shown Q (unpack a) := by
  have hany : ∀ a, Shown Q (Any.layout.nodes unpack a) ↔ Shown Q (unpack a) := fun _ => Iff.rfl
  rw [Layout.shown_nodes]
  cases hr : m.result with
  | none =>
    simp +decide [Operation.layout, Operation.resultLens, Lens.member, Operation.envelopes, hany, hr,
      hQ.shown_word, hQ.shown_text, hQ.shown_message]
  | some result =>
    cases result <;>
      simp +decide [Operation.layout, Operation.resultLens, Lens.member, Operation.envelopes, hany,
        hr, OperationResult.error?, OperationResult.response?, OperationResult.envelopes,
        hQ.shown_word, hQ.shown_text, hQ.shown_message, Status.shown_nodes hQ, or_imp,
        forall_and]

/-- All of a message of a type without a place for envelopes is shown. -/
theorem MessageType.shown_nodes_of_isPlain (t : MessageType) (h : t.isPlain = true)
    (m : t.Message) : Shown Q (t.layout.nodes unpack m) := by
  revert h
  cases t <;>
    simp +decide [MessageType.layout, Layout.shown_nodes, Digest.layout,
      FindMissingBlobsRequest.layout, FindMissingBlobsResponse.layout, ExecuteRequest.layout,
      WaitExecutionRequest.layout, GetActionResultRequest.layout, OutputFile.layout,
      ActionResult.layout, ReadRequest.layout, GetActionResultDetails.layout,
      FindMissingBlobsDetails.layout, ReadDetails.layout, WriteDetails.layout, Timestamp.layout,
      Duration.layout, EmptyMessage.layout, hQ.shown_word, hQ.shown_text, hQ.shown_octets,
      hQ.shown_words, hQ.shown_texts, hQ.shown_message, hQ.shown_messages]

/-- A response is shown by the packed details of its status. -/
theorem ExecuteResponse.shown_nodes (m : ExecuteResponse) :
    Shown Q (ExecuteResponse.layout.nodes unpack m) ↔ ∀ a ∈ m.envelopes, Shown Q (unpack a) := by
  have hresult : ∀ r, Shown Q (ActionResult.layout.nodes unpack r) :=
    MessageType.actionResult.shown_nodes_of_isPlain hQ unpack rfl
  rw [ExecuteResponse.envelopes, List.forall_mem_flatMap, Layout.shown_nodes]
  simp +decide [ExecuteResponse.layout, hQ.shown_word, hQ.shown_text,
    hQ.shown_message, Status.shown_nodes hQ, hresult]

/-- An execution is shown by its operations. -/
theorem ExecuteDetails.shown_nodes (m : ExecuteDetails) :
    Shown Q (ExecuteDetails.layout.nodes unpack m) ↔ ∀ a ∈ m.envelopes, Shown Q (unpack a) := by
  have hrequest : ∀ r, Shown Q (ExecuteRequest.layout.nodes unpack r) :=
    MessageType.executeRequest.shown_nodes_of_isPlain hQ unpack rfl
  rw [ExecuteDetails.envelopes, List.forall_mem_flatMap, Layout.shown_nodes]
  simp +decide [ExecuteDetails.layout, hQ.shown_message,
    hQ.shown_messages, Operation.shown_nodes hQ, hrequest]

/-- A wait for an execution is shown by its operations. -/
theorem WaitExecutionDetails.shown_nodes (m : WaitExecutionDetails) :
    Shown Q (WaitExecutionDetails.layout.nodes unpack m) ↔
      ∀ a ∈ m.envelopes, Shown Q (unpack a) := by
  have hrequest : ∀ r, Shown Q (WaitExecutionRequest.layout.nodes unpack r) :=
    MessageType.waitExecutionRequest.shown_nodes_of_isPlain hQ unpack rfl
  rw [WaitExecutionDetails.envelopes, List.forall_mem_flatMap, Layout.shown_nodes]
  simp +decide [WaitExecutionDetails.layout, hQ.shown_message,
    hQ.shown_messages, Operation.shown_nodes hQ, hrequest]

/-- The details of a call are shown by its operations, if it has any. -/
theorem RpcCallDetails.shown_nodes (m : RpcCallDetails) :
    Shown Q (RpcCallDetails.layout.nodes unpack m) ↔ ∀ a ∈ m.envelopes, Shown Q (unpack a) := by
  have hlookedUp : ∀ d, Shown Q (GetActionResultDetails.layout.nodes unpack d) :=
    MessageType.getActionResultDetails.shown_nodes_of_isPlain hQ unpack rfl
  have hfind : ∀ d, Shown Q (FindMissingBlobsDetails.layout.nodes unpack d) :=
    MessageType.findMissingBlobsDetails.shown_nodes_of_isPlain hQ unpack rfl
  have hread : ∀ d, Shown Q (ReadDetails.layout.nodes unpack d) :=
    MessageType.readDetails.shown_nodes_of_isPlain hQ unpack rfl
  have hwrite : ∀ d, Shown Q (WriteDetails.layout.nodes unpack d) :=
    MessageType.writeDetails.shown_nodes_of_isPlain hQ unpack rfl
  rw [Layout.shown_nodes]
  cases hc : m.call with
  | none => simp +decide [RpcCallDetails.layout, RpcCallDetails.callLens,
      RpcCallDetails.envelopes, Lens.member, hc, hQ.shown_message]
  | some call =>
    cases call <;>
      simp +decide [RpcCallDetails.layout, RpcCallDetails.callLens, RpcCallDetails.envelopes,
        Lens.member, CallDetails.execute?, CallDetails.getActionResult?, CallDetails.waitExecution?,
        CallDetails.findMissingBlobs?, CallDetails.read?, CallDetails.write?,
        CallDetails.envelopes, ExecuteDetails.shown_nodes hQ, WaitExecutionDetails.shown_nodes hQ,
        hc, hlookedUp, hfind, hread, hwrite, hQ.shown_message]

/-- An entry is shown by its status and the details of its call. -/
theorem LogEntry.shown_nodes (m : LogEntry) :
    Shown Q (LogEntry.layout.nodes unpack m) ↔ ∀ a ∈ m.envelopes, Shown Q (unpack a) := by
  have htime : ∀ t, Shown Q (Timestamp.layout.nodes unpack t) :=
    MessageType.timestamp.shown_nodes_of_isPlain hQ unpack rfl
  rw [LogEntry.envelopes, List.forall_mem_append, List.forall_mem_flatMap,
    List.forall_mem_flatMap, Layout.shown_nodes]
  simp +decide [LogEntry.layout, Status.shown_nodes hQ, RpcCallDetails.shown_nodes hQ, htime,
    hQ.shown_text, hQ.shown_message]

/-- All that is shown of a message of any type has a property just where its envelopes have it. -/
theorem MessageType.shown_nodes (t : MessageType) (m : t.Message) :
    Shown Q (t.layout.nodes unpack m) ↔ ∀ a ∈ t.envelopes m, Shown Q (unpack a) := by
  cases hp : t.isPlain with
  | true =>
    have hall : ∀ a ∈ t.envelopes m, Shown Q (unpack a) := by
      cases t <;> first | exact List.forall_mem_nil _ | cases hp
    exact iff_of_true (t.shown_nodes_of_isPlain hQ unpack hp m) hall
  | false =>
    cases t with
    | any => exact (List.forall_mem_singleton (p := fun a => Shown Q (unpack a))).symm
    | status => exact Status.shown_nodes hQ unpack m
    | operation => exact Operation.shown_nodes hQ unpack m
    | executeResponse => exact ExecuteResponse.shown_nodes hQ unpack m
    | executeDetails => exact ExecuteDetails.shown_nodes hQ unpack m
    | waitExecutionDetails => exact WaitExecutionDetails.shown_nodes hQ unpack m
    | rpcCallDetails => exact RpcCallDetails.shown_nodes hQ unpack m
    | logEntry => exact LogEntry.shown_nodes hQ unpack m
    | _ => cases hp

end Displays

end CallTrace
