import CallTrace.Proofs.Message.Restoring

/-!
# Every message type is read back

What is written of a decoded message is decoded as that message again, whatever
its type. A type gives three facts about its fields: none of them touches the
bytes that are kept as unknown, the messages that they hold were decoded
themselves, and what they write restores them in turn. The depth to which
messages stand in each other carries the induction.
-/

namespace CallTrace

/-- A property holds of each message that stands directly in a message. -/
def MessageType.AllWithin (Q : (t : MessageType) → t.Message → Prop) :
    (t : MessageType) → t.Message → Prop
  | .findMissingBlobsRequest, (m : FindMissingBlobsRequest) => ∀ d ∈ m.blobDigests, Q .digest d
  | .findMissingBlobsResponse, (m : FindMissingBlobsResponse) =>
    ∀ d ∈ m.missingBlobDigests, Q .digest d
  | .executeRequest, (m : ExecuteRequest) => ∀ d, m.actionDigest = some d → Q .digest d
  | .getActionResultRequest, (m : GetActionResultRequest) =>
    ∀ d, m.actionDigest = some d → Q .digest d
  | .outputFile, (m : OutputFile) => ∀ d, m.digest = some d → Q .digest d
  | .actionResult, (m : ActionResult) =>
    (∀ file ∈ m.outputFiles, Q .outputFile file) ∧ (∀ d, m.stdoutDigest = some d → Q .digest d) ∧
      ∀ d, m.stderrDigest = some d → Q .digest d
  | .executeResponse, (m : ExecuteResponse) =>
    (∀ r, m.result = some r → Q .actionResult r) ∧ ∀ s, m.status = some s → Q .status s
  | .executeDetails, (m : ExecuteDetails) =>
    (∀ r, m.request = some r → Q .executeRequest r) ∧ ∀ op ∈ m.responses, Q .operation op
  | .waitExecutionDetails, (m : WaitExecutionDetails) =>
    (∀ r, m.request = some r → Q .waitExecutionRequest r) ∧ ∀ op ∈ m.responses, Q .operation op
  | .getActionResultDetails, (m : GetActionResultDetails) =>
    (∀ r, m.request = some r → Q .getActionResultRequest r) ∧
      ∀ r, m.response = some r → Q .actionResult r
  | .findMissingBlobsDetails, (m : FindMissingBlobsDetails) =>
    (∀ r, m.request = some r → Q .findMissingBlobsRequest r) ∧
      ∀ r, m.response = some r → Q .findMissingBlobsResponse r
  | .readDetails, (m : ReadDetails) => ∀ r, m.request = some r → Q .readRequest r
  | .rpcCallDetails, (m : RpcCallDetails) =>
    (∀ d, m.call = some (.execute d) → Q .executeDetails d) ∧
      (∀ d, m.call = some (.getActionResult d) → Q .getActionResultDetails d) ∧
      (∀ d, m.call = some (.waitExecution d) → Q .waitExecutionDetails d) ∧
      (∀ d, m.call = some (.findMissingBlobs d) → Q .findMissingBlobsDetails d) ∧
      (∀ d, m.call = some (.read d) → Q .readDetails d) ∧
      ∀ d, m.call = some (.write d) → Q .writeDetails d
  | .logEntry, (m : LogEntry) =>
    (∀ t, m.startTime = some t → Q .timestamp t) ∧ (∀ t, m.endTime = some t → Q .timestamp t) ∧
      (∀ s, m.status = some s → Q .status s) ∧ ∀ d, m.details = some d → Q .rpcCallDetails d
  | .operation, (m : Operation) =>
    (∀ a, m.metadata = some a → Q .any a) ∧ (∀ s, m.result = some (.error s) → Q .status s) ∧
      ∀ a, m.result = some (.response a) → Q .any a
  | .status, (m : Status) => ∀ a ∈ m.details, Q .any a
  | _, _ => True

/-- What a member of a choice holds is what is chosen. -/
theorem Lens.get_member {μ σ β : Type} {choice : Lens μ (Option σ)} {wrap : β → σ}
    {member? : σ → Option β} (hp : ∀ {c b}, member? c = some b ↔ c = wrap b) {m : μ} {b : β} :
    (choice.member wrap member?).get m = some b ↔ choice.get m = some (wrap b) := by
  simp [member, Option.bind_eq_some_iff, hp]

@[simp] theorem CallDetails.execute?_eq_some {call : CallDetails} {d : ExecuteDetails} :
    call.execute? = some d ↔ call = .execute d := by
  cases call <;> simp [execute?]

@[simp] theorem CallDetails.getActionResult?_eq_some {call : CallDetails}
    {d : GetActionResultDetails} : call.getActionResult? = some d ↔ call = .getActionResult d := by
  cases call <;> simp [getActionResult?]

@[simp] theorem CallDetails.waitExecution?_eq_some {call : CallDetails}
    {d : WaitExecutionDetails} : call.waitExecution? = some d ↔ call = .waitExecution d := by
  cases call <;> simp [waitExecution?]

@[simp] theorem CallDetails.findMissingBlobs?_eq_some {call : CallDetails}
    {d : FindMissingBlobsDetails} :
    call.findMissingBlobs? = some d ↔ call = .findMissingBlobs d := by
  cases call <;> simp [findMissingBlobs?]

@[simp] theorem CallDetails.read?_eq_some {call : CallDetails} {d : ReadDetails} :
    call.read? = some d ↔ call = .read d := by
  cases call <;> simp [read?]

@[simp] theorem CallDetails.write?_eq_some {call : CallDetails} {d : WriteDetails} :
    call.write? = some d ↔ call = .write d := by
  cases call <;> simp [write?]

@[simp] theorem OperationResult.error?_eq_some {result : OperationResult} {status : Status} :
    result.error? = some status ↔ result = .error status := by
  cases result <;> simp [error?]

@[simp] theorem OperationResult.response?_eq_some {result : OperationResult} {packed : Any} :
    result.response? = some packed ↔ result = .response packed := by
  cases result <;> simp [response?]

namespace MessageType

/-- What is unknown in a message has a place of its own. -/
theorem lawful_unknown (t : MessageType) : t.layout.unknown.Lawful := by
  cases t <;> exact ⟨fun _ _ => rfl, fun _ _ _ => rfl, fun _ => rfl⟩

theorem unknown_empty (t : MessageType) : t.layout.unknown.get t.layout.empty = [] := by
  cases t <;> rfl

/-- The fields of a type hold messages that were decoded where they stand. -/
theorem guards (t : MessageType) (room : Nat) :
    ∀ f ∈ t.layout.fields, f.Guards t.layout.unknown room
      (t.AllWithin fun t m => t.layout.DecodesWithin room m) := by
  cases t <;> repeat' refine List.forall_mem_cons.mpr ⟨?_, ?_⟩
  all_goals try exact List.forall_mem_nil _
  all_goals constructor
  all_goals try exact fun _ _ => rfl
  all_goals try exact fun _ _ h => h
  all_goals simp +contextual [AllWithin, layout, Lens.member, RpcCallDetails.callLens,
    Operation.resultLens, Option.bind_eq_some_iff, or_imp]

theorem AllWithin.mono {Q Q' : (t : MessageType) → t.Message → Prop}
    (h : ∀ t m, Q t m → Q' t m) {t : MessageType} {m : t.Message} (hm : t.AllWithin Q m) :
    t.AllWithin Q' m := by
  cases t
  all_goals simp only [AllWithin] at hm ⊢
  all_goals grind

theorem allWithin_empty (Q : (t : MessageType) → t.Message → Prop) (t : MessageType) :
    t.AllWithin Q t.layout.empty := by
  cases t
  all_goals try exact trivial
  all_goals repeat' refine And.intro ?_ ?_
  all_goals nofun

theorem AllWithin.set_unknown {Q : (t : MessageType) → t.Message → Prop} {t : MessageType}
    {m : t.Message} (hm : t.AllWithin Q m) (bytes : List UInt8) :
    t.AllWithin Q (t.layout.unknown.set bytes m) := by
  cases t <;> exact hm

/-- The messages in a decoded message were decoded, and the bytes it kept are kept again. -/
theorem guarded_of_decodes {t : MessageType} {room : Nat} {m : t.Message}
    (h : t.layout.Decodes room m) :
    t.AllWithin (fun t m => t.layout.DecodesWithin room m) m ∧
      t.layout.Foreign room (t.layout.unknown.get m) :=
  h.guarded t.lawful_unknown (t.guards room) (fun bytes _ hm => hm.set_unknown bytes)
    (allWithin_empty _ t) t.unknown_empty

open CallTrace.Field CallTrace.Word in
/-- The fields of a type are restored one after the other, where the messages in them are. -/
theorem restores {t : MessageType} {room : Nat} {m : t.Message}
    (hm : t.AllWithin (fun t m => t.layout.RereadsWithin room m) m) :
    t.layout.Restores room m t.layout.fields t.layout.empty (t.layout.unknown.set [] m) := by
  cases t
  case digest =>
    exact .cons (restores_text ⟨rfl, by decide⟩ rfl)
      (.cons (restores_word lawful_int64 ⟨rfl, by decide⟩ rfl) .nil)
  case findMissingBlobsRequest =>
    exact .cons (restores_text ⟨rfl, by decide⟩ rfl)
      (.cons (restores_messages ⟨rfl, by decide⟩ ⟨fun _ _ => rfl, fun _ _ _ => rfl, fun _ => rfl⟩
        rfl hm) .nil)
  case findMissingBlobsResponse =>
    exact .cons (restores_messages ⟨rfl, by decide⟩
      ⟨fun _ _ => rfl, fun _ _ _ => rfl, fun _ => rfl⟩ rfl hm) .nil
  case executeRequest =>
    exact .cons (restores_text ⟨rfl, by decide⟩ rfl)
      (.cons (restores_word lawful_flag ⟨rfl, by decide⟩ rfl)
        (.cons (restores_message ⟨rfl, by decide⟩ rfl rfl hm) .nil))
  case waitExecutionRequest => exact .cons (restores_text ⟨rfl, by decide⟩ rfl) .nil
  case getActionResultRequest =>
    exact .cons (restores_text ⟨rfl, by decide⟩ rfl)
      (.cons (restores_message ⟨rfl, by decide⟩ rfl rfl hm) .nil)
  case outputFile =>
    exact .cons (restores_text ⟨rfl, by decide⟩ rfl)
      (.cons (restores_message ⟨rfl, by decide⟩ rfl rfl hm)
        (.cons (restores_word lawful_flag ⟨rfl, by decide⟩ rfl)
          (.cons (restores_octets ⟨rfl, by decide⟩ rfl) .nil)))
  case actionResult =>
    obtain ⟨hfiles, hout, herr⟩ := hm
    exact .cons (restores_messages ⟨rfl, by decide⟩
        ⟨fun _ _ => rfl, fun _ _ _ => rfl, fun _ => rfl⟩ rfl hfiles)
      (.cons (restores_word lawful_int32 ⟨rfl, by decide⟩ rfl)
        (.cons (restores_octets ⟨rfl, by decide⟩ rfl)
          (.cons (restores_message ⟨rfl, by decide⟩ rfl rfl hout)
            (.cons (restores_octets ⟨rfl, by decide⟩ rfl)
              (.cons (restores_message ⟨rfl, by decide⟩ rfl rfl herr) .nil)))))
  case executeResponse =>
    obtain ⟨hresult, hstatus⟩ := hm
    exact .cons (restores_message ⟨rfl, by decide⟩ rfl rfl hresult)
      (.cons (restores_word lawful_flag ⟨rfl, by decide⟩ rfl)
        (.cons (restores_message ⟨rfl, by decide⟩ rfl rfl hstatus)
          (.cons (restores_text ⟨rfl, by decide⟩ rfl) .nil)))
  case readRequest =>
    exact .cons (restores_text ⟨rfl, by decide⟩ rfl)
      (.cons (restores_word lawful_int64 ⟨rfl, by decide⟩ rfl)
        (.cons (restores_word lawful_int64 ⟨rfl, by decide⟩ rfl) .nil))
  case executeDetails =>
    obtain ⟨hrequest, hresponses⟩ := hm
    exact .cons (restores_message ⟨rfl, by decide⟩ rfl rfl hrequest)
      (.cons (restores_messages ⟨rfl, by decide⟩
        ⟨fun _ _ => rfl, fun _ _ _ => rfl, fun _ => rfl⟩ rfl hresponses) .nil)
  case waitExecutionDetails =>
    obtain ⟨hrequest, hresponses⟩ := hm
    exact .cons (restores_message ⟨rfl, by decide⟩ rfl rfl hrequest)
      (.cons (restores_messages ⟨rfl, by decide⟩
        ⟨fun _ _ => rfl, fun _ _ _ => rfl, fun _ => rfl⟩ rfl hresponses) .nil)
  case getActionResultDetails =>
    obtain ⟨hrequest, hresponse⟩ := hm
    exact .cons (restores_message ⟨rfl, by decide⟩ rfl rfl hrequest)
      (.cons (restores_message ⟨rfl, by decide⟩ rfl rfl hresponse) .nil)
  case findMissingBlobsDetails =>
    obtain ⟨hrequest, hresponse⟩ := hm
    exact .cons (restores_message ⟨rfl, by decide⟩ rfl rfl hrequest)
      (.cons (restores_message ⟨rfl, by decide⟩ rfl rfl hresponse) .nil)
  case readDetails =>
    exact .cons (restores_message ⟨rfl, by decide⟩ rfl rfl hm)
      (.cons (restores_word lawful_int64 ⟨rfl, by decide⟩ rfl)
        (.cons (restores_word lawful_int64 ⟨rfl, by decide⟩ rfl) .nil))
  case writeDetails =>
    exact .cons (restores_texts ⟨rfl, by decide⟩
        ⟨fun _ _ => rfl, fun _ _ _ => rfl, fun _ => rfl⟩ rfl)
      (.cons (restores_words lawful_int64 ⟨rfl, by decide⟩
          ⟨fun _ _ => rfl, fun _ _ _ => rfl, fun _ => rfl⟩ rfl)
        (.cons (restores_words lawful_flag ⟨rfl, by decide⟩
            ⟨fun _ _ => rfl, fun _ _ _ => rfl, fun _ => rfl⟩ rfl)
          (.cons (restores_word lawful_int64 ⟨rfl, by decide⟩ rfl)
            (.cons (restores_word lawful_int64 ⟨rfl, by decide⟩ rfl) .nil))))
  case rpcCallDetails =>
    obtain ⟨hexecute, hresult, hwait, hfind, hread, hwrite⟩ := hm
    obtain ⟨call, unknown⟩ := m
    -- One member at most is written. Where it is known which one, the others leave it there.
    rcases call with _ | ⟨_ | _ | _ | _ | _ | _⟩ <;>
      exact .cons (restores_message ⟨rfl, by decide⟩ rfl rfl fun d h =>
          hexecute d ((Lens.get_member CallDetails.execute?_eq_some).mp h))
        (.cons (restores_message ⟨rfl, by decide⟩ rfl rfl fun d h =>
            hresult d ((Lens.get_member CallDetails.getActionResult?_eq_some).mp h))
          (.cons (restores_message ⟨rfl, by decide⟩ rfl rfl fun d h =>
              hwait d ((Lens.get_member CallDetails.waitExecution?_eq_some).mp h))
            (.cons (restores_message ⟨rfl, by decide⟩ rfl rfl fun d h =>
                hfind d ((Lens.get_member CallDetails.findMissingBlobs?_eq_some).mp h))
              (.cons (restores_message ⟨rfl, by decide⟩ rfl rfl fun d h =>
                  hread d ((Lens.get_member CallDetails.read?_eq_some).mp h))
                (.cons (restores_message ⟨rfl, by decide⟩ rfl rfl fun d h =>
                  hwrite d ((Lens.get_member CallDetails.write?_eq_some).mp h)) .nil)))))
  case logEntry =>
    obtain ⟨hstart, hend, hstatus, hdetails⟩ := hm
    exact .cons (restores_message ⟨rfl, by decide⟩ rfl rfl hstart)
      (.cons (restores_message ⟨rfl, by decide⟩ rfl rfl hend)
        (.cons (restores_message ⟨rfl, by decide⟩ rfl rfl hstatus)
          (.cons (restores_text ⟨rfl, by decide⟩ rfl)
            (.cons (restores_message ⟨rfl, by decide⟩ rfl rfl hdetails) .nil))))
  case operation =>
    obtain ⟨hmetadata, herror, hresponse⟩ := hm
    obtain ⟨name, metadata, done, result, unknown⟩ := m
    rcases result with _ | ⟨_ | _⟩ <;>
      exact .cons (restores_text ⟨rfl, by decide⟩ rfl)
        (.cons (restores_message ⟨rfl, by decide⟩ rfl rfl hmetadata)
          (.cons (restores_word lawful_flag ⟨rfl, by decide⟩ rfl)
            (.cons (restores_message ⟨rfl, by decide⟩ rfl rfl fun s h =>
                herror s ((Lens.get_member OperationResult.error?_eq_some).mp h))
              (.cons (restores_message ⟨rfl, by decide⟩ rfl rfl fun a h =>
                hresponse a ((Lens.get_member OperationResult.response?_eq_some).mp h)) .nil))))
  case status =>
    exact .cons (restores_word lawful_int32 ⟨rfl, by decide⟩ rfl)
      (.cons (restores_text ⟨rfl, by decide⟩ rfl)
        (.cons (restores_messages ⟨rfl, by decide⟩
          ⟨fun _ _ => rfl, fun _ _ _ => rfl, fun _ => rfl⟩ rfl hm) .nil))
  case any =>
    exact .cons (restores_text ⟨rfl, by decide⟩ rfl)
      (.cons (restores_octets ⟨rfl, by decide⟩ rfl) .nil)
  case timestamp =>
    exact .cons (restores_word lawful_int64 ⟨rfl, by decide⟩ rfl)
      (.cons (restores_word lawful_int32 ⟨rfl, by decide⟩ rfl) .nil)
  case duration =>
    exact .cons (restores_word lawful_int64 ⟨rfl, by decide⟩ rfl)
      (.cons (restores_word lawful_int32 ⟨rfl, by decide⟩ rfl) .nil)
  case empty => exact .nil

/--
What is unknown in a message is fields that its type does not know, so it is in the messages within
it, and no message stands deeper than there is room for.
-/
def Intact : Nat → (t : MessageType) → t.Message → Prop
  | 0, t, m => t.layout.Foreign 0 (t.layout.unknown.get m) ∧ t.AllWithin (fun _ _ => False) m
  | room + 1, t, m =>
    t.layout.Foreign (room + 1) (t.layout.unknown.get m) ∧ t.AllWithin (Intact room) m

/-- An intact message is read back. -/
theorem rereads_of_intact {room : Nat} {t : MessageType} {m : t.Message} (h : Intact room t m) :
    t.layout.Rereads room m := by
  induction room generalizing t m with
  | zero =>
    obtain ⟨hforeign, hin⟩ := h
    exact hforeign.rereads t.lawful_unknown (restores (hin.mono fun _ _ h => h.elim))
  | succ room ih =>
    obtain ⟨hforeign, hin⟩ := h
    exact hforeign.rereads t.lawful_unknown (restores (hin.mono fun _ _ h => ih h))

/-- A decoded message is intact. -/
theorem intact_of_decodes {room : Nat} {t : MessageType} {m : t.Message}
    (h : t.layout.Decodes room m) : Intact room t m := by
  induction room generalizing t m with
  | zero =>
    obtain ⟨hin, hforeign⟩ := guarded_of_decodes h
    refine ⟨hforeign, hin.mono ?_⟩
    rintro t m ⟨bytes, hd⟩
    cases hd
  | succ room ih =>
    obtain ⟨hin, hforeign⟩ := guarded_of_decodes h
    exact ⟨hforeign, hin.mono fun t m hd => ih hd⟩

/-- Nothing is unknown in a message nor in those within it, which stand at most so deep. -/
def Plain : Nat → (t : MessageType) → t.Message → Prop
  | 0, _, _ => False
  | depth + 1, t, m => t.layout.unknown.get m = [] ∧ t.AllWithin (Plain depth) m

/-- A plain message is intact, whether or not it was decoded before. -/
theorem intact_of_plain {depth room : Nat} {t : MessageType} {m : t.Message}
    (hd : depth ≤ room + 1) (hm : Plain depth t m) : Intact room t m := by
  induction depth generalizing room t m with
  | zero => cases hm
  | succ depth ih =>
    obtain ⟨hnone, hin⟩ := hm
    have hforeign : ∀ room, t.layout.Foreign room (t.layout.unknown.get m) := fun room =>
      hnone ▸ Layout.foreign_nil t.lawful_unknown
    cases room with
    | zero =>
      cases depth with
      | zero => exact ⟨hforeign 0, hin⟩
      | succ depth => omega
    | succ room => exact ⟨hforeign _, hin.mono fun t m hm => ih (by omega) hm⟩

theorem decode_eq_ok {t : MessageType} {bytes : List UInt8} {m : t.Message} :
    t.decode bytes = .ok m ↔
      t.layout.decodeOnto Wire.nestingLimit t.layout.empty bytes = .ok m := by
  unfold decode Layout.decode
  cases t.layout.decodeOnto Wire.nestingLimit t.layout.empty bytes <;> simp [Except.mapError]

/-- What is written of an intact message is decoded as the message. -/
theorem decode_encode_of_intact {t : MessageType} {m : t.Message}
    (h : Intact Wire.nestingLimit t m) : t.decode (t.encode m) = .ok m :=
  decode_eq_ok.mpr (rereads_of_intact h)

/-- What is written of a decoded message is decoded as the message. -/
theorem decode_encode {t : MessageType} {bytes : List UInt8} {m : t.Message}
    (h : t.decode bytes = .ok m) : t.decode (t.encode m) = .ok m :=
  decode_encode_of_intact (intact_of_decodes ⟨bytes, decode_eq_ok.mp h⟩)

/-- What is written of a plain message is decoded as the message. -/
theorem decode_encode_of_plain {t : MessageType} {m : t.Message} {depth : Nat}
    (hm : Plain depth t m) (hd : depth ≤ Wire.nestingLimit) : t.decode (t.encode m) = .ok m :=
  decode_encode_of_intact (intact_of_plain (Nat.le_succ_of_le hd) hm)

end MessageType

end CallTrace
