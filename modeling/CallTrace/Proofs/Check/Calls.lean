import CallTrace.Check.Advance

/-!
# Calls that matter

What it is for a call to look up, to upload and to produce a blob, said of the
fields of the call alone. The three endings of method names exclude each
other, so a call has at most one role, and the tests that a check makes decide
just these properties.
-/

namespace CallTrace

/-- None of the members has a property, or a first one has it. -/
theorem forall_not_or_exists_first {α : Type} (p : α → Prop) (xs : List α) :
    (∀ x ∈ xs, ¬ p x) ∨
      ∃ before x after, xs = before ++ x :: after ∧ (∀ y ∈ before, ¬ p y) ∧ p x := by
  classical
  cases h : xs.find? (fun x => decide (p x)) with
  | none => exact .inl (by simpa using h)
  | some x =>
    obtain ⟨hx, before, after, hsplit, hb⟩ := List.find?_eq_some_iff_append.mp h
    exact .inr ⟨before, x, after, hsplit, by simpa using hb, by simpa using hx⟩

/-- The name of the called method has the ending of the role. -/
def LogEntry.Plays (entry : LogEntry) (role : Role) : Prop :=
  role.methodEnding.toList <:+ entry.methodName.toList

/-- A digest has just the hash and the size of the target. -/
def Digest.Names (d : Digest) (target : Target) : Prop :=
  d.hash = target.hash ∧ d.sizeBytes.toInt = target.size

/-- A resource name ends in the hash of the target, a slash and the size in decimal. -/
def Target.Ends (target : Target) (name : String) : Prop :=
  (target.hash ++ "/" ++ target.size.repr).toList <:+ name.toList

/-- A lookup that asks for the blob. -/
structure LogEntry.LooksUp (entry : LogEntry) (target : Target) : Prop where
  /-- The call is a lookup. -/
  plays : entry.Plays .lookup
  /-- One of the digests is that of the blob. -/
  listed : ∃ d ∈ entry.lookedUp, d.Names target

/-- An upload of the blob. -/
structure LogEntry.Uploads (entry : LogEntry) (target : Target) : Prop where
  /-- The call is an upload. -/
  plays : entry.Plays .upload
  /-- One of the resource names is that of the blob. -/
  named : ∃ name ∈ entry.uploadedNames, target.Ends name

/-- An operation is done and all before it in a stream are not. -/
def Operation.IsFirstDoneOf (op : Operation) (ops : List Operation) : Prop :=
  op.done = true ∧ ∃ before after, ops = before ++ op :: after ∧ ∀ p ∈ before, p.done = false

/-- A response tells of an output file with the digest of the blob. -/
def ExecuteResponse.Outputs (response : ExecuteResponse) (target : Target) : Prop :=
  ∃ result, response.result = some result ∧
    ∃ file ∈ result.outputFiles, ∃ d, file.digest = some d ∧ d.Names target

/-- An execution whose first finished operation answers with a response that has the blob. -/
structure LogEntry.Produces (entry : LogEntry) (target : Target) : Prop where
  /-- The call is an execution. -/
  plays : entry.Plays .execution
  /-- The response of the first finished operation has the blob among its output files. -/
  output : ∃ op : Operation, op.IsFirstDoneOf entry.executions ∧ ∃ packed,
    op.result = some (.response packed) ∧ ∃ response : ExecuteResponse,
      packed.unpackAs .executeResponse = .ok response ∧ response.Outputs target

/-- Two roles of one method are the same: no ending is the ending of another. -/
theorem Role.eq_of_suffix {r r' : Role} {method : List Char}
    (h : r.methodEnding.toList <:+ method) (h' : r'.methodEnding.toList <:+ method) : r = r' := by
  have hne : ∀ a b : Role, a.methodEnding.toList <:+ b.methodEnding.toList → a = b := by
    intro a b
    cases a <;> cases b <;> decide
  rcases List.suffix_or_suffix_of_suffix h h' with hs | hs
  · exact hne r r' hs
  · exact (hne r' r hs).symm

/-- A call plays at most one role. -/
theorem LogEntry.Plays.unique {entry : LogEntry} {r r' : Role} (h : entry.Plays r)
    (h' : entry.Plays r') : r = r' :=
  Role.eq_of_suffix h h'

theorem Role.hasMethod_iff (role : Role) (method : String) :
    role.hasMethod method = true ↔ role.methodEnding.toList <:+ method.toList :=
  List.isSuffixOf_iff_suffix

/-- The role that is found for a method is the one whose ending the method has. -/
theorem Role.ofMethod?_eq_some_iff (method : String) (role : Role) :
    Role.ofMethod? method = some role ↔ role.methodEnding.toList <:+ method.toList := by
  constructor
  · intro h
    have hm : role.hasMethod method = true :=
      List.find?_some (p := fun r : Role => r.hasMethod method) h
    exact (role.hasMethod_iff method).mp hm
  · intro h
    cases hf : Role.ofMethod? method with
    | some r =>
      have hm : r.hasMethod method = true :=
        List.find?_some (p := fun r : Role => r.hasMethod method) hf
      rw [Role.eq_of_suffix ((r.hasMethod_iff method).mp hm) h]
    | none =>
      have hn := List.find?_eq_none.mp hf role (by cases role <;> decide)
      exact absurd ((role.hasMethod_iff method).mpr h) hn

/-- Calls that do not matter are those without a role. -/
theorem isUnrelated_iff (entry : LogEntry) :
    isUnrelated entry.methodName = true ↔ ∀ role, ¬ entry.Plays role := by
  unfold isUnrelated
  rw [Option.isNone_iff_eq_none, Option.eq_none_iff_forall_not_mem]
  constructor
  · intro h role hp
    exact h role ((Role.ofMethod?_eq_some_iff _ _).mpr hp)
  · intro h role hm
    exact h role ((Role.ofMethod?_eq_some_iff _ _).mp hm)

/-- A call with a role matters. -/
theorem LogEntry.Plays.related {entry : LogEntry} {role : Role} (h : entry.Plays role) :
    isUnrelated entry.methodName = false := by
  rw [Bool.eq_false_iff]
  intro hu
  exact (isUnrelated_iff entry).mp hu role h

/-- A call that matters has a role. -/
theorem exists_plays_of_related {entry : LogEntry} (h : isUnrelated entry.methodName = false) :
    ∃ role, entry.Plays role := by
  cases hr : Role.ofMethod? entry.methodName with
  | some role => exact ⟨role, (Role.ofMethod?_eq_some_iff _ _).mp hr⟩
  | none => simp [isUnrelated, hr] at h

theorem Target.isNamedBy_iff (target : Target) (d : Digest) :
    target.isNamedBy d = true ↔ d.Names target := by
  simp [Target.isNamedBy, Digest.Names]

theorem Target.isListedIn_iff (target : Target) (ds : List Digest) :
    target.isListedIn ds = true ↔ ∃ d ∈ ds, d.Names target := by
  simp [Target.isListedIn, Target.isNamedBy_iff]

theorem Target.endsSome_iff (target : Target) (names : List String) :
    target.endsSome names = true ↔ ∃ name ∈ names, target.Ends name := by
  simp [Target.endsSome, Target.endsName, Target.Ends, Target.text]

/-- A digest that was not set names no target, for a target has a hash. -/
theorem Digest.not_names_default (target : Target) : ¬ ({} : Digest).Names target := by
  intro h
  exact target.hash_ne_empty h.1.symm

/-- The digests of the output files list the target where one of the files has its digest. -/
theorem ExecuteResponse.isListedIn_outputDigests_iff (response : ExecuteResponse)
    (target : Target) :
    target.isListedIn response.outputDigests = true ↔ response.Outputs target := by
  rw [Target.isListedIn_iff]
  unfold ExecuteResponse.outputDigests ExecuteResponse.Outputs
  cases response.result with
  | none => simp
  | some result =>
    simp only [Option.map_some, Option.getD_some, List.mem_map, Option.some.injEq,
      exists_eq_left']
    constructor
    · intro h
      obtain ⟨-, ⟨file, hf, rfl⟩, hn⟩ := h
      cases hd : file.digest with
      | none =>
        rw [hd] at hn
        exact absurd hn (Digest.not_names_default target)
      | some d =>
        rw [hd] at hn
        exact ⟨file, hf, d, hd, hn⟩
    · intro h
      obtain ⟨file, hf, d, hd, hn⟩ := h
      refine ⟨_, ⟨file, hf, rfl⟩, ?_⟩
      rw [hd]
      exact hn

/-- The operation that a check looks at is the first one that is done. -/
theorem Operation.firstFinished?_eq_some_iff (ops : List Operation) (op : Operation) :
    Operation.firstFinished? ops = some op ↔ op.IsFirstDoneOf ops := by
  unfold Operation.firstFinished? Operation.IsFirstDoneOf
  rw [List.find?_eq_some_iff_append]
  simp

/-- A response is had where its envelope names the type and holds a message of it. -/
theorem Any.unpackAs_eq_ok_iff (a : Any) (t : MessageType) (m : t.Message) :
    a.unpackAs t = .ok m ↔ a.typeName? = some t.fullName ∧ t.decode a.value = .ok m := by
  unfold Any.unpackAs
  by_cases hn : a.typeName? = some t.fullName
  · rw [if_pos hn]
    cases t.decode a.value with
    | error e =>
      refine iff_of_false (fun h => ?_) (fun h => ?_)
      · cases h
      · cases h.2
    | ok m' =>
      constructor
      · intro h
        cases h
        exact ⟨hn, rfl⟩
      · intro h
        cases h.2
        rfl
  · simp [hn]

/-- An operation has succeeded where it is done and its response unpacks. -/
theorem Operation.conclude_eq_success_iff (op : Operation) (t : MessageType) (m : t.Message) :
    op.conclude t = .ok (.success m) ↔
      op.done = true ∧ ∃ packed, op.result = some (.response packed) ∧
        packed.unpackAs t = .ok m := by
  unfold Operation.conclude Operation.concludeResult
  cases op.done with
  | false => simp
  | true =>
    cases op.result with
    | none => simp
    | some result =>
      cases result with
      | error status => by_cases h : status.code = 0 <;> simp [h]
      | response packed => cases hu : packed.unpackAs t <;> simp [Except.map, hu]

/-- The record of a lookup. -/
def LogEntry.ofLookup (digests : List Digest) : LogEntry :=
  { methodName := "/ContentAddressableStorage/FindMissingBlobs"
    details := some { call := some (.findMissingBlobs
      { request := some { blobDigests := digests } }) } }

/-- The record of an upload. -/
def LogEntry.ofUpload (names : List String) : LogEntry :=
  { methodName := "/ByteStream/Write"
    details := some { call := some (.write { resourceNames := names }) } }

/-- The record of an execution. -/
def LogEntry.ofExecution (ops : List Operation) : LogEntry :=
  { methodName := "/Execution/Execute"
    details := some { call := some (.execute { responses := ops }) } }

theorem LogEntry.plays_ofLookup (digests : List Digest) :
    (LogEntry.ofLookup digests).Plays .lookup := by
  have h : Role.lookup.methodEnding.toList <:+ (LogEntry.ofLookup []).methodName.toList := by
    decide
  exact h

theorem LogEntry.plays_ofUpload (names : List String) :
    (LogEntry.ofUpload names).Plays .upload := by
  have h : Role.upload.methodEnding.toList <:+ (LogEntry.ofUpload []).methodName.toList := by
    decide
  exact h

theorem LogEntry.plays_ofExecution (ops : List Operation) :
    (LogEntry.ofExecution ops).Plays .execution := by
  have h : Role.execution.methodEnding.toList <:+ (LogEntry.ofExecution []).methodName.toList := by
    decide
  exact h

/-- A message in an envelope. -/
def MessageType.pack (t : MessageType) (m : t.Message) : Any :=
  { typeUrl := "type.googleapis.com/" ++ t.fullName, value := t.encode m }

/-- An operation that has succeeded. -/
def Operation.ofResponse (packed : Any) : Operation :=
  { done := true, result := some (.response packed) }

/-- A response with one output file and a status with details. -/
def ExecuteResponse.ofOutput (d : Digest) (details : List Any) : ExecuteResponse :=
  { result := some { outputFiles := [{ digest := some d }] }
    status := some { details := details } }

/-- A packed message is had back where its bytes are read back. -/
theorem MessageType.unpackAs_pack {t : MessageType} {m : t.Message}
    (hn : (t.pack m).typeName? = some t.fullName) (hm : t.decode (t.encode m) = .ok m) :
    (t.pack m).unpackAs t = .ok m :=
  (Any.unpackAs_eq_ok_iff _ t m).mpr ⟨hn, hm⟩

/-- An envelope that claims to hold a status and holds no message. -/
def Any.corruptStatus : Any :=
  { typeUrl := "type.googleapis.com/google.rpc.Status", value := [255] }

end CallTrace
