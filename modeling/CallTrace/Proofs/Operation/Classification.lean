import Mathlib.Data.List.Nodup
import CallTrace.Proofs.Check.Failures
import CallTrace.Proofs.Message.RoundTrip

/-!
# What an operation can come to

An operation is on its way, has failed, or has succeeded with a response of the type that is
expected of it, and what it came to cannot be had in every other case. Its done flag and its
result alone decide which it is. A type is known by its name in the URL of the envelope and not by
the packed bytes: a message that was packed is had back as what it was, and never as a message of
another type.
-/

namespace CallTrace

/-! ### The type that an envelope claims -/

/-- A text without slashes has nothing behind its last one. -/
theorem afterLastSlash?_of_not_mem {cs : List Char} (h : '/' ∉ cs) : afterLastSlash? cs = none := by
  induction cs with
  | nil => rfl
  | cons c cs ih =>
    obtain ⟨hc, hrest⟩ := not_or.mp (List.mem_cons.not.mp h)
    rw [afterLastSlash?, ih hrest]
    exact if_neg (Ne.symm hc)

theorem afterLastSlash?_append (front : List Char) {name : List Char} (h : '/' ∉ name) :
    afterLastSlash? (front ++ '/' :: name) = some name := by
  induction front with
  | nil =>
    rw [List.nil_append, afterLastSlash?, afterLastSlash?_of_not_mem h]
    exact if_pos rfl
  | cons c front ih => rw [List.cons_append, afterLastSlash?, ih]

/-- A text with a slash has a last one. -/
theorem exists_last_slash {cs : List Char} (h : '/' ∈ cs) :
    ∃ front name, cs = front ++ '/' :: name ∧ '/' ∉ name := by
  obtain ⟨name, front, hsplit, hn⟩ := List.eq_append_cons_of_mem (List.mem_reverse.mpr h)
  refine ⟨front.reverse, name.reverse, ?_, List.mem_reverse.not.mpr hn⟩
  rw [← List.reverse_reverse cs, hsplit]
  simp

/-- What is behind the last slash of a text has a slash in front of it and none in it. -/
theorem afterLastSlash?_eq_some_iff {cs name : List Char} :
    afterLastSlash? cs = some name ↔ ∃ front, cs = front ++ '/' :: name ∧ '/' ∉ name := by
  constructor
  · intro h
    by_cases hslash : '/' ∈ cs
    · obtain ⟨front, last, rfl, hlast⟩ := exists_last_slash hslash
      cases (afterLastSlash?_append front hlast).symm.trans h
      exact ⟨front, rfl, hlast⟩
    · cases (afterLastSlash?_of_not_mem hslash).symm.trans h
  · rintro ⟨front, rfl, hname⟩
    exact afterLastSlash?_append front hname

/-- No two types have one name. -/
theorem MessageType.fullName_injective : Function.Injective MessageType.fullName := by
  have hnodup : (all.map fullName).Nodup := by decide
  intro t t' h
  exact List.inj_on_of_nodup_map hnodup t.mem_all t'.mem_all h

theorem MessageType.slash_not_mem_fullName (t : MessageType) : '/' ∉ t.fullName.toList := by
  cases t <;> decide +kernel

namespace Any

/-- The URL has a slash, and what stands behind the last one is the name of the type. -/
def Claims (a : Any) (t : MessageType) : Prop :=
  ∃ front name, a.typeUrl.toList = front ++ '/' :: name ∧ '/' ∉ name ∧
    String.ofList name = t.fullName

/-- The envelope holds what is written of the message, under any URL that ends in the type's name.
-/
structure Packs (a : Any) (t : MessageType) (m : t.Message) : Prop where
  /-- The name of the type stands behind a slash, and anything in front of that. -/
  url : ∃ host, a.typeUrl = host ++ "/" ++ t.fullName
  /-- The packed bytes are those of the message. -/
  value : a.value = t.encode m

variable {a : Any} {t t' : MessageType}

theorem typeName?_eq_iff : a.typeName? = some t.fullName ↔ a.Claims t := by
  simp only [typeName?, Option.map_eq_some_iff, afterLastSlash?_eq_some_iff, Claims]
  constructor
  · rintro ⟨name, ⟨front, hsplit, hslash⟩, hname⟩
    exact ⟨front, name, hsplit, hslash, hname⟩
  · rintro ⟨front, name, hsplit, hslash, hname⟩
    exact ⟨name, ⟨front, hsplit, hslash⟩, hname⟩

/-- An envelope claims to hold a message of at most one type. -/
theorem Claims.unique (h : a.Claims t) (h' : a.Claims t') : t = t' := by
  rw [← typeName?_eq_iff] at h h'
  exact MessageType.fullName_injective (Option.some.inj (h.symm.trans h'))

theorem Packs.claims {m : t.Message} (h : a.Packs t m) : a.Claims t := by
  obtain ⟨host, hurl⟩ := h.url
  refine ⟨host.toList, t.fullName.toList, ?_, t.slash_not_mem_fullName, String.ofList_toList⟩
  have hslash : "/".toList = ['/'] := rfl
  rw [hurl, String.toList_append, String.toList_append, hslash, List.append_assoc,
    List.singleton_append]

/-- A message is had back from an envelope that it was packed in just if it is intact. -/
theorem Packs.unpackAs_iff {m : t.Message} (h : a.Packs t m) :
    a.unpackAs t = .ok m ↔ MessageType.Intact Wire.nestingLimit t m := by
  rw [unpackAs_eq_ok_iff, h.value]
  constructor
  · rintro ⟨-, hd⟩
    exact MessageType.intact_of_decodes ⟨t.encode m, MessageType.decode_eq_ok.mp hd⟩
  · intro hm
    exact ⟨typeName?_eq_iff.mpr h.claims, MessageType.decode_encode_of_intact hm⟩

/-- Whatever its bytes, nothing is had from an envelope that does not claim the type. -/
theorem unpackAs_of_not_claims (h : ¬ a.Claims t) :
    a.unpackAs t = .error (.mistyped a.typeUrl t.fullName) :=
  if_neg (typeName?_eq_iff.not.mpr h)

end Any

/-! ### The four cases -/

namespace Operation

/-- The operation is not done, has no result, or has failed with the code of a success. -/
def IsPending (op : Operation) : Prop :=
  op.done = false ∨ op.result = none ∨ ∃ status, op.result = some (.error status) ∧ status.code = 0

/-- The operation is done and has failed with the status. -/
def HasFailed (op : Operation) (status : Status) : Prop :=
  op.done = true ∧ op.result = some (.error status) ∧ status.code ≠ 0

/-- The operation is done, and its response claims the type and holds the bytes of the message. -/
def HasSucceeded (op : Operation) (t : MessageType) (m : t.Message) : Prop :=
  op.done = true ∧ ∃ packed, op.result = some (.response packed) ∧ packed.Claims t ∧
    t.decode packed.value = .ok m

variable {op op' : Operation} {t : MessageType}

/-- What an operation came to hangs on nothing but its done flag and its result. -/
theorem conclude_congr (hd : op'.done = op.done) (hr : op'.result = op.result) (t : MessageType) :
    op'.conclude t = op.conclude t := by
  rw [conclude, conclude, hd, hr]

theorem conclude_eq_pending_iff : op.conclude t = .ok .pending ↔ op.IsPending := by
  unfold conclude concludeResult IsPending
  cases op.done with
  | false => simp
  | true =>
    cases op.result with
    | none => simp
    | some result =>
      cases result with
      | error status => by_cases hc : status.code = 0 <;> simp [hc]
      | response packed => cases hu : packed.unpackAs t <;> simp [Except.map, hu]

theorem conclude_eq_success_iff_hasSucceeded (m : t.Message) :
    op.conclude t = .ok (.success m) ↔ op.HasSucceeded t m := by
  simp only [conclude_eq_success_iff, Any.unpackAs_eq_ok_iff, Any.typeName?_eq_iff, HasSucceeded]

/-- There is an error just where the operation has come to none of the other three. -/
theorem conclude_eq_error_iff :
    (∃ e, op.conclude t = .error e) ↔ ¬ op.IsPending ∧ (∀ status, ¬ op.HasFailed status) ∧
      ∀ m, ¬ op.HasSucceeded t m := by
  constructor
  · rintro ⟨e, he⟩
    refine ⟨fun h => ?_, fun status h => ?_, fun m h => ?_⟩
    · cases he.symm.trans (conclude_eq_pending_iff.mpr h)
    · cases he.symm.trans ((op.conclude_eq_failure_iff t status).mpr h)
    · cases he.symm.trans ((conclude_eq_success_iff_hasSucceeded m).mpr h)
  · rintro ⟨hpending, hfailed, hsucceeded⟩
    cases hc : op.conclude t with
    | error e => exact ⟨e, rfl⟩
    | ok c =>
      cases c with
      | success m => exact absurd ((conclude_eq_success_iff_hasSucceeded m).mp hc) (hsucceeded m)
      | failure status =>
        exact absurd ((op.conclude_eq_failure_iff t status).mp hc) (hfailed status)
      | pending => exact absurd (conclude_eq_pending_iff.mp hc) hpending

/-- An operation that is done is concluded by its response. -/
theorem conclude_of_response {packed : Any} (hd : op.done = true)
    (hr : op.result = some (.response packed)) :
    op.conclude t = (packed.unpackAs t).map .success := by
  rw [conclude, if_pos hd, hr]
  rfl

theorem conclude_eq_success_iff_of_response {packed : Any} {m : t.Message} (hd : op.done = true)
    (hr : op.result = some (.response packed)) :
    op.conclude t = .ok (.success m) ↔ packed.unpackAs t = .ok m := by
  rw [conclude_of_response hd hr]
  cases packed.unpackAs t <;> simp [Except.map]

end Operation

/--
An operation is on its way, has failed, has succeeded with a message of the expected type, or its
result cannot be had, each just where its done flag and its result say so. A response in which a
message of the type was packed succeeds with that message if it is intact, as is every message
that was decoded or has nothing unknown in it, and no other message is had from any bytes. A
response in which a message of another type was packed is refused, whether or not its bytes would
be a message of the expected type.
-/
theorem Operation.conclude_classifies (op : Operation) (t : MessageType) :
    (op.conclude t = .ok .pending ↔ op.IsPending) ∧
    (∀ status, op.conclude t = .ok (.failure status) ↔ op.HasFailed status) ∧
    (∀ m, op.conclude t = .ok (.success m) ↔ op.HasSucceeded t m) ∧
    ((∃ e, op.conclude t = .error e) ↔ ¬ op.IsPending ∧ (∀ status, ¬ op.HasFailed status) ∧
      ∀ m, ¬ op.HasSucceeded t m) ∧
    (∀ packed, op.done = true → op.result = some (.response packed) →
      (∀ m, packed.Packs t m →
        (op.conclude t = .ok (.success m) ↔ MessageType.Intact Wire.nestingLimit t m)) ∧
      ∀ t' (m : t'.Message), packed.Packs t' m → t' ≠ t →
        op.conclude t = .error (.mistyped packed.typeUrl t.fullName)) ∧
    ∀ op' : Operation, op'.done = op.done → op'.result = op.result →
      op'.conclude t = op.conclude t := by
  refine ⟨conclude_eq_pending_iff, op.conclude_eq_failure_iff t,
    conclude_eq_success_iff_hasSucceeded, conclude_eq_error_iff, fun packed hd hr => ⟨?_, ?_⟩,
    fun op' hd hr => conclude_congr hd hr t⟩
  · intro m hpacks
    rw [conclude_eq_success_iff_of_response hd hr, hpacks.unpackAs_iff]
  · intro t' m hpacks hne
    have hother : ¬ packed.Claims t := fun h => hne (hpacks.claims.unique h)
    rw [conclude_of_response hd hr, Any.unpackAs_of_not_claims hother]
    rfl

/-- A failure with a negative code and a field that statuses do not know. -/
def Status.sample : Status := { code := -1, message := "é", unknown := [0x48, 0x85, 0x00] }

theorem Operation.conclude_classifies_status :
    let op := Operation.ofResponse
      ⟨"x//google.rpc.Status", MessageType.status.encode Status.sample, []⟩
    let other := Operation.ofResponse (MessageType.empty.pack ({} : EmptyMessage))
    op.conclude .status = .ok (.success Status.sample) ∧
      MessageType.status.decode (MessageType.empty.encode ({} : EmptyMessage)) =
        .ok ({} : Status) ∧
      other.conclude .status =
        .error (.mistyped "type.googleapis.com/google.protobuf.Empty" "google.rpc.Status") := by
  intro op other
  have hm : MessageType.Intact Wire.nestingLimit .status Status.sample :=
    MessageType.intact_of_decodes (t := .status)
      ⟨MessageType.status.encode Status.sample, by with_unfolding_all rfl⟩
  obtain ⟨-, -, -, -, hpacked, -⟩ := op.conclude_classifies .status
  obtain ⟨-, -, -, -, hother, -⟩ := other.conclude_classifies .status
  refine ⟨((hpacked _ rfl rfl).1 Status.sample ⟨⟨"x/", rfl⟩, rfl⟩).mpr hm,
    by with_unfolding_all rfl, ?_⟩
  exact (hother _ rfl rfl).2 .empty ({} : EmptyMessage) ⟨⟨"type.googleapis.com", by decide⟩, rfl⟩
    (by decide)

end CallTrace
