import CallTrace.Proofs.Message.Envelopes

/-!
# Packed messages are shorter than what they are packed in

What is packed in a decoded message is a run of bytes behind a tag and a
length, so it is shorter than the bytes that the message was decoded from.
This is an invariant of decoding: every field keeps it, for payloads shorter
than the bound, and so does a message of such fields.
-/

namespace CallTrace

/-- A run of bytes in a payload is shorter than the bound. -/
def Wire.Payload.Within (n : Nat) : Wire.Payload → Prop
  | .delimited run => run.length < n
  | _ => True

namespace Wire

theorem length_taken_le_of_take? {n : Nat} {bytes taken rest : List UInt8}
    (h : take? n bytes = some (taken, rest)) : taken.length ≤ bytes.length := by
  unfold take? at h
  split at h
  · cases h
    rw [List.length_take]
    omega
  · cases h

/-- A run behind its length is shorter than the input. -/
theorem length_lt_of_takeDelimited? {bytes run rest : List UInt8}
    (h : takeDelimited? bytes = some (run, rest)) : run.length < bytes.length := by
  simp only [takeDelimited?, Option.bind_eq_bind, Option.bind_eq_some_iff] at h
  obtain ⟨⟨length, r⟩, hr, h⟩ := h
  have hlt := length_lt_of_readLength? hr
  have hle : run.length ≤ r.length := length_taken_le_of_take? h
  omega

/-- The run of bytes in a field is shorter than the input that the field was read from. -/
theorem Field.within_of_read? {room : Nat} {bytes rest : List UInt8} {field : Field}
    (h : Field.read? room bytes = some (field, rest)) : field.payload.Within bytes.length := by
  simp only [Field.read?, Option.bind_eq_bind, Option.bind_eq_some_iff] at h
  obtain ⟨⟨tag, body⟩, ht, ⟨payload, r⟩, hp, h⟩ := h
  cases h
  have hbody := Tag.length_lt_of_read? ht
  cases payload with
  | varint word => trivial
  | other => trivial
  | delimited run =>
    have hk : tag.kind = .delimited := by
      unfold Tag.payload? at hp
      split at hp
      · split at hp <;> simp at hp
      · cases hk : tag.kind <;> simp [payload?, hk] at hp ⊢
    have hrun : takeDelimited? body = some (run, r) := by
      simpa [Tag.payload?, payload?, hk] using hp
    have hlt := length_lt_of_takeDelimited? hrun
    exact Nat.lt_trans hlt hbody

theorem Payload.Within.mono {n n' : Nat} {payload : Payload} (h : payload.Within n)
    (hn : n ≤ n') : payload.Within n' := by
  cases payload with
  | delimited run => exact Nat.lt_of_lt_of_le h hn
  | varint word => trivial
  | other => trivial

end Wire

section Invariants

variable {μ β γ : Type}

/-- A field keeps a property of messages, for payloads shorter than the bound. -/
def Field.Keeps (f : Field μ) (n : Nat) (P : μ → Prop) : Prop :=
  ∀ room payload m m', payload.Within n → P m → f.absorb room payload m = some (.ok m') → P m'

/-- Decoding no more bytes than the bound keeps a property of messages. -/
def Layout.Keeps (L : Layout μ) (n : Nat) (P : μ → Prop) : Prop :=
  ∀ room bytes m m', bytes.length ≤ n → P m → L.decodeOnto room m bytes = .ok m' → P m'

/-- All that a field does to a message is to give its place another value. -/
def Field.Sets (f : Field μ) (lens : Lens μ β) : Prop :=
  ∀ room payload m m', f.absorb room payload m = some (.ok m') → ∃ v, m' = lens.set v m

/-- A layout whose fields keep a property keeps it, whatever it keeps as unknown. -/
theorem Layout.keeps_of_fields {L : Layout μ} {n : Nat} {P : μ → Prop}
    (hf : ∀ f ∈ L.fields, f.Keeps n P) (hk : ∀ bytes m, P m → P (L.keep bytes m)) :
    L.Keeps n P := by
  intro room bytes m m' hb hm h
  -- The induction follows the bytes; each field read leaves fewer of them.
  fun_induction Layout.decodeOnto L room m bytes with
  | case1 m =>
    cases h
    exact hm
  | case2 => cases h
  | case3 => cases h
  | case4 m b bs field rest hr m₁ ha ih =>
    have hlt := Wire.Field.length_lt_of_read? hr
    have hwithin := (Wire.Field.within_of_read? hr).mono hb
    refine ih (by omega) ?_ h
    unfold Layout.absorb at ha
    split at ha
    · split at ha
      · cases ha
      · cases ha
        exact hk _ _ hm
    · next f hfind =>
      have hmem := List.mem_of_find?_eq_some hfind
      cases hopt : f.absorb room field.payload m with
      | none =>
        rw [hopt] at ha
        cases ha
        exact hk _ _ hm
      | some result =>
        rw [hopt, Option.getD_some] at ha
        rw [ha] at hopt
        exact hf f hmem room _ m m₁ hwithin hm hopt

theorem Field.keeps_of_sets {f : Field μ} {lens : Lens μ β} (hs : f.Sets lens) {n : Nat}
    {P : μ → Prop} (hP : ∀ v m, P m → P (lens.set v m)) : f.Keeps n P := by
  intro room payload m m' _ hm h
  obtain ⟨v, rfl⟩ := hs room payload m m' h
  exact hP v m hm

theorem Field.sets_word [DecidableEq β] (w : Word β) (number : Nat) (name : String)
    (lens : Lens μ β) : (Field.word w number name lens).Sets lens := by
  intro room payload m m' h
  cases payload <;> simp only [Field.word, Option.some.injEq, Except.ok.injEq, reduceCtorEq] at h
  exact ⟨_, h.symm⟩

theorem Field.sets_text (number : Nat) (name : String) (lens : Lens μ String) :
    (Field.text number name lens).Sets lens := by
  intro room payload m m' h
  cases payload <;> simp only [Field.text, reduceCtorEq] at h
  split at h <;> simp only [Option.some.injEq, Except.ok.injEq, reduceCtorEq] at h
  exact ⟨_, h.symm⟩

/-- A run of bytes that is set was the payload. -/
theorem Field.keeps_octets {lens : Lens μ (List UInt8)} {n : Nat} {P : μ → Prop}
    (hP : ∀ run m, run.length < n → P m → P (lens.set run m)) (number : Nat) (name : String) :
    (Field.octets number name lens).Keeps n P := by
  intro room payload m m' hw hm h
  cases payload <;> simp only [Field.octets, Option.some.injEq, Except.ok.injEq, reduceCtorEq] at h
  subst h
  exact hP _ m hw hm

/-- A decoded message within a message keeps a property if the message within keeps its own. -/
theorem Layout.Keeps.decodeWithin {L : Layout β} {n room : Nat} {Q : β → Prop} (hL : L.Keeps n Q)
    {run : List UInt8} {inner inner' : β} (hrun : run.length < n) (hi : Q inner)
    (h : L.decodeWithin room inner run = .ok inner') : Q inner' := by
  cases room with
  | zero => cases h
  | succ room => exact hL room run inner inner' (Nat.le_of_lt hrun) hi h

/-- A message that is merged into the one at a place. -/
theorem Field.keeps_message {L : Layout β} {lens : Lens μ (Option β)} {n : Nat} {P : μ → Prop}
    {Q : β → Prop} (hL : L.Keeps n Q) (hempty : 0 < n → Q L.empty)
    (hget : ∀ m inner, P m → lens.get m = some inner → Q inner)
    (hset : ∀ m inner, P m → Q inner → P (lens.set (some inner) m)) (number : Nat)
    (name : String) : (Field.message L number name lens).Keeps n P := by
  intro room payload m m' hw hm h
  cases payload <;> simp only [Field.message, reduceCtorEq] at h
  next run =>
    have hrun : run.length < n := hw
    have hold : Q ((lens.get m).getD L.empty) := by
      cases hg : lens.get m with
      | none => exact hempty (by omega)
      | some inner => exact hget m inner hm hg
    split at h
    · next inner hd =>
      cases h
      exact hset m inner hm (hL.decodeWithin hrun hold hd)
    · cases h

/-- A message that is put behind those at a place. -/
theorem Field.keeps_messages {L : Layout β} {lens : Lens μ (List β)} {n : Nat} {P : μ → Prop}
    {Q : β → Prop} (hL : L.Keeps n Q) (hempty : 0 < n → Q L.empty)
    (hset : ∀ m inner, P m → Q inner → P (lens.set (lens.get m ++ [inner]) m)) (number : Nat)
    (name : String) : (Field.messages L number name lens).Keeps n P := by
  intro room payload m m' hw hm h
  cases payload <;> simp only [Field.messages, reduceCtorEq] at h
  next run =>
    have hrun : run.length < n := hw
    split at h
    · next inner hd =>
      cases h
      exact hset m inner hm (hL.decodeWithin hrun (hempty (by omega)) hd)
    · cases h

/-- A message within a message sets its place. -/
theorem Field.sets_message (L : Layout β) (number : Nat) (name : String)
    (lens : Lens μ (Option β)) : (Field.message L number name lens).Sets lens := by
  intro room payload m m' h
  cases payload <;> simp only [Field.message, reduceCtorEq] at h
  split at h
  · cases h
    exact ⟨_, rfl⟩
  · cases h

end Invariants

/-- The envelopes in a list hold fewer bytes than the bound. -/
def Short (n : Nat) (envelopes : List Any) : Prop := ∀ a ∈ envelopes, a.value.length < n

theorem short_nil (n : Nat) : Short n [] := by
  intro a ha
  cases ha

/-- An envelope holds what it was given as its value. -/
theorem Any.keeps_short (n : Nat) : Any.layout.Keeps n fun a => Short n [a] := by
  refine Layout.keeps_of_fields ?_ fun bytes m h => ?_
  · simp only [Any.layout, List.forall_mem_cons, List.not_mem_nil, false_implies, implies_true,
      and_true]
    refine ⟨Field.keeps_of_sets (Field.sets_text _ _ _) fun v m h => ?_,
      Field.keeps_octets (fun run m hrun _ => ?_) _ _⟩
    · simpa [Short] using h
    · simpa [Short] using hrun
  · simpa [Short, Layout.keep, Any.layout] using h

theorem Any.short_empty {n : Nat} (hn : 0 < n) : Short n [Any.layout.empty] := by
  simpa [Short, Any.layout] using hn

theorem Status.keeps_short (n : Nat) : Status.layout.Keeps n fun m => Short n m.envelopes := by
  refine Layout.keeps_of_fields ?_ fun bytes m h => h
  simp only [Status.layout, List.forall_mem_cons, List.not_mem_nil, false_implies, implies_true,
    and_true]
  refine ⟨Field.keeps_of_sets (Field.sets_word _ _ _ _) fun v m h => h,
    Field.keeps_of_sets (Field.sets_text _ _ _) fun v m h => h,
    Field.keeps_messages (Any.keeps_short n) Any.short_empty (fun m inner hm hi => ?_) _ _⟩
  intro a ha
  rcases List.mem_append.mp ha with ha | ha
  · exact hm a ha
  · exact hi a ha

/-- The envelopes of a message that may not be there. -/
theorem mem_flatMap_toList {α β : Type} {x : Option α} {f : α → List β} {b : β} :
    b ∈ x.toList.flatMap f ↔ ∃ y, x = some y ∧ b ∈ f y := by
  simp

theorem Operation.mem_envelopes {op : Operation} {a : Any} :
    a ∈ op.envelopes ↔
      op.metadata = some a ∨ ∃ result, op.result = some result ∧ a ∈ result.envelopes := by
  simp [Operation.envelopes]

theorem Operation.keeps_short (n : Nat) :
    Operation.layout.Keeps n fun m => Short n m.envelopes := by
  refine Layout.keeps_of_fields ?_ fun bytes m h => h
  simp only [Operation.layout, List.forall_mem_cons, List.not_mem_nil, false_implies, implies_true,
    and_true]
  refine ⟨Field.keeps_of_sets (Field.sets_text _ _ _) fun v m h => h,
    Field.keeps_message (Any.keeps_short n) Any.short_empty (fun m inner hm hg => ?_)
      (fun m inner hm hi => ?_) _ _,
    Field.keeps_of_sets (Field.sets_word _ _ _ _) fun v m h => h,
    Field.keeps_message (Status.keeps_short n) (fun _ => short_nil n) (fun m inner hm hg => ?_)
      (fun m inner hm hi => ?_) _ _,
    Field.keeps_message (Any.keeps_short n) Any.short_empty (fun m inner hm hg => ?_)
      (fun m inner hm hi => ?_) _ _⟩
  · intro a ha
    cases List.mem_singleton.mp ha
    exact hm inner (Operation.mem_envelopes.mpr (.inl hg))
  · intro a ha
    rcases Operation.mem_envelopes.mp ha with ha | ⟨result, hr, ha⟩
    · cases ha
      exact hi _ List.mem_cons_self
    · exact hm a (Operation.mem_envelopes.mpr (.inr ⟨result, hr, ha⟩))
  · obtain ⟨result, hr, hw⟩ := Option.bind_eq_some_iff.mp hg
    cases result <;> cases hw
    intro a ha
    exact hm a (Operation.mem_envelopes.mpr (.inr ⟨_, hr, ha⟩))
  · intro a ha
    rcases Operation.mem_envelopes.mp ha with ha | ⟨result, hr, ha⟩
    · exact hm a (Operation.mem_envelopes.mpr (.inl ha))
    · cases hr
      exact hi a ha
  · obtain ⟨result, hr, hw⟩ := Option.bind_eq_some_iff.mp hg
    cases result <;> cases hw
    intro a ha
    exact hm a (Operation.mem_envelopes.mpr (.inr ⟨_, hr, ha⟩))
  · intro a ha
    rcases Operation.mem_envelopes.mp ha with ha | ⟨result, hr, ha⟩
    · exact hm a (Operation.mem_envelopes.mpr (.inl ha))
    · cases hr
      exact hi a ha

theorem ExecuteResponse.keeps_short (n : Nat) :
    ExecuteResponse.layout.Keeps n fun m => Short n m.envelopes := by
  refine Layout.keeps_of_fields ?_ fun bytes m h => h
  simp only [ExecuteResponse.layout, List.forall_mem_cons, List.not_mem_nil, false_implies,
    implies_true, and_true]
  refine ⟨Field.keeps_of_sets (Field.sets_message _ _ _ _) fun v m h => h,
    Field.keeps_of_sets (Field.sets_word _ _ _ _) fun v m h => h,
    Field.keeps_message (Status.keeps_short n) (fun _ => short_nil n) (fun m inner hm hg => ?_)
      (fun m inner hm hi => ?_) _ _,
    Field.keeps_of_sets (Field.sets_text _ _ _) fun v m h => h⟩
  · intro a ha
    exact hm a (mem_flatMap_toList.mpr ⟨inner, hg, ha⟩)
  · intro a ha
    obtain ⟨status, hs, ha⟩ := mem_flatMap_toList.mp ha
    cases hs
    exact hi a ha

/-- An operation is put behind those at the place that all envelopes of a message come from. -/
theorem Field.keeps_short_operations {μ : Type} {lens : Lens μ (List Operation)}
    {envelopes : μ → List Any} (n : Nat)
    (henvelopes : ∀ m, envelopes m = (lens.get m).flatMap Operation.envelopes)
    (hlens : ∀ v m, lens.get (lens.set v m) = v) (number : Nat) (name : String) :
    (Field.messages Operation.layout number name lens).Keeps n fun m => Short n (envelopes m) := by
  refine Field.keeps_messages (Operation.keeps_short n) (fun _ => short_nil n)
    (fun m inner hm hi => ?_) number name
  intro a ha
  rw [henvelopes, hlens, List.flatMap_append, List.flatMap_singleton] at ha
  rcases List.mem_append.mp ha with ha | ha
  · rw [← henvelopes] at ha
    exact hm a ha
  · exact hi a ha

theorem ExecuteDetails.keeps_short (n : Nat) :
    ExecuteDetails.layout.Keeps n fun m => Short n m.envelopes := by
  refine Layout.keeps_of_fields ?_ fun bytes m h => h
  simp only [ExecuteDetails.layout, List.forall_mem_cons, List.not_mem_nil, false_implies,
    implies_true, and_true]
  exact ⟨Field.keeps_of_sets (Field.sets_message _ _ _ _) fun v m h => h,
    Field.keeps_short_operations n (fun _ => rfl) (fun _ _ => rfl) _ _⟩

theorem WaitExecutionDetails.keeps_short (n : Nat) :
    WaitExecutionDetails.layout.Keeps n fun m => Short n m.envelopes := by
  refine Layout.keeps_of_fields ?_ fun bytes m h => h
  simp only [WaitExecutionDetails.layout, List.forall_mem_cons, List.not_mem_nil, false_implies,
    implies_true, and_true]
  exact ⟨Field.keeps_of_sets (Field.sets_message _ _ _ _) fun v m h => h,
    Field.keeps_short_operations n (fun _ => rfl) (fun _ _ => rfl) _ _⟩

/-- A kind of call is merged into the details that are there, if they are of the same kind. -/
theorem RpcCallDetails.keeps_short_member {β : Type} {L : Layout β} {wrap : β → CallDetails}
    {member? : CallDetails → Option β} {envelopes : β → List Any} {n : Nat}
    (hL : L.Keeps n fun b => Short n (envelopes b)) (hempty : envelopes L.empty = [])
    (hwrap : ∀ b, (wrap b).envelopes = envelopes b)
    (hmember : ∀ call b, member? call = some b → call = wrap b) (number : Nat) (name : String) :
    (Field.message L number name (RpcCallDetails.callLens.member wrap member?)).Keeps n
      fun m => Short n m.envelopes := by
  refine Field.keeps_message hL (fun _ => hempty ▸ short_nil n) (fun m inner hm hg => ?_)
    (fun m inner hm hi => ?_) _ _
  · obtain ⟨call, hc, hw⟩ := Option.bind_eq_some_iff.mp hg
    intro a ha
    rw [← hwrap, ← hmember call inner hw] at ha
    exact hm a (mem_flatMap_toList.mpr ⟨call, hc, ha⟩)
  · intro a ha
    obtain ⟨call, hc, ha⟩ := mem_flatMap_toList.mp ha
    cases hc
    exact hi a (hwrap inner ▸ ha)

theorem Layout.keeps_trivial {β : Type} (L : Layout β) (n : Nat) :
    L.Keeps n fun _ => Short n [] :=
  fun _ _ _ _ _ _ _ => short_nil n

theorem RpcCallDetails.keeps_short (n : Nat) :
    RpcCallDetails.layout.Keeps n fun m => Short n m.envelopes := by
  refine Layout.keeps_of_fields ?_ fun bytes m h => h
  simp only [RpcCallDetails.layout, List.forall_mem_cons, List.not_mem_nil, false_implies,
    implies_true, and_true]
  refine ⟨RpcCallDetails.keeps_short_member (ExecuteDetails.keeps_short n) rfl (fun _ => rfl)
      (fun call _ h => ?_) _ _,
    RpcCallDetails.keeps_short_member (Layout.keeps_trivial _ n) rfl (fun _ => rfl)
      (fun call _ h => ?_) _ _,
    RpcCallDetails.keeps_short_member (WaitExecutionDetails.keeps_short n) rfl (fun _ => rfl)
      (fun call _ h => ?_) _ _,
    RpcCallDetails.keeps_short_member (Layout.keeps_trivial _ n) rfl (fun _ => rfl)
      (fun call _ h => ?_) _ _,
    RpcCallDetails.keeps_short_member (Layout.keeps_trivial _ n) rfl (fun _ => rfl)
      (fun call _ h => ?_) _ _,
    RpcCallDetails.keeps_short_member (Layout.keeps_trivial _ n) rfl (fun _ => rfl)
      (fun call _ h => ?_) _ _⟩
  all_goals
    cases call <;> cases h
    rfl

theorem LogEntry.mem_envelopes {entry : LogEntry} {a : Any} :
    a ∈ entry.envelopes ↔
      (∃ status, entry.status = some status ∧ a ∈ status.envelopes) ∨
        ∃ details, entry.details = some details ∧ a ∈ details.envelopes := by
  simp [LogEntry.envelopes]

theorem LogEntry.keeps_short (n : Nat) :
    LogEntry.layout.Keeps n fun m => Short n m.envelopes := by
  refine Layout.keeps_of_fields ?_ fun bytes m h => h
  simp only [LogEntry.layout, List.forall_mem_cons, List.not_mem_nil, false_implies,
    implies_true, and_true]
  refine ⟨Field.keeps_of_sets (Field.sets_message _ _ _ _) fun v m h => h,
    Field.keeps_of_sets (Field.sets_message _ _ _ _) fun v m h => h,
    Field.keeps_message (Status.keeps_short n) (fun _ => short_nil n) (fun m inner hm hg => ?_)
      (fun m inner hm hi => ?_) _ _,
    Field.keeps_of_sets (Field.sets_text _ _ _) fun v m h => h,
    Field.keeps_message (RpcCallDetails.keeps_short n) (fun _ => short_nil n)
      (fun m inner hm hg => ?_) (fun m inner hm hi => ?_) _ _⟩
  · intro a ha
    exact hm a (LogEntry.mem_envelopes.mpr (.inl ⟨inner, hg, ha⟩))
  · intro a ha
    rcases LogEntry.mem_envelopes.mp ha with ⟨status, hs, ha⟩ | hd
    · cases hs
      exact hi a ha
    · exact hm a (LogEntry.mem_envelopes.mpr (.inr hd))
  · intro a ha
    exact hm a (LogEntry.mem_envelopes.mpr (.inr ⟨inner, hg, ha⟩))
  · intro a ha
    rcases LogEntry.mem_envelopes.mp ha with hs | ⟨details, hd, ha⟩
    · exact hm a (LogEntry.mem_envelopes.mpr (.inl hs))
    · cases hd
      exact hi a ha

/-- Decoding no more bytes than the bound leaves only envelopes shorter than it. -/
theorem MessageType.keeps_short (t : MessageType) (n : Nat) :
    t.layout.Keeps n fun m => Short n (t.envelopes m) := by
  cases t with
  | any => exact Any.keeps_short n
  | status => exact Status.keeps_short n
  | operation => exact Operation.keeps_short n
  | executeResponse => exact ExecuteResponse.keeps_short n
  | executeDetails => exact ExecuteDetails.keeps_short n
  | waitExecutionDetails => exact WaitExecutionDetails.keeps_short n
  | rpcCallDetails => exact RpcCallDetails.keeps_short n
  | logEntry => exact LogEntry.keeps_short n
  | _ => exact Layout.keeps_trivial _ n

/-- What is packed in a decoded message is shorter than the bytes of the message. -/
theorem MessageType.length_lt_of_mem_envelopes {t : MessageType} {bytes : List UInt8}
    {m : t.Message} (h : t.decode bytes = .ok m) (hb : bytes ≠ []) {a : Any}
    (ha : a ∈ t.envelopes m) : a.value.length < bytes.length := by
  have hpos : 0 < bytes.length := List.length_pos_iff.mpr hb
  have hempty : Short bytes.length (t.envelopes t.layout.empty) := by
    cases t <;> first | exact Any.short_empty hpos | exact short_nil _
  have hd : t.layout.decodeOnto Wire.nestingLimit t.layout.empty bytes = .ok m := by
    unfold MessageType.decode Layout.decode at h
    cases hd : t.layout.decodeOnto Wire.nestingLimit t.layout.empty bytes with
    | error flaw =>
      rw [hd] at h
      cases h
    | ok m' =>
      rw [hd] at h
      cases h
      rfl
  exact t.keeps_short bytes.length _ bytes _ m (Nat.le_refl _) hempty hd a ha

end CallTrace
