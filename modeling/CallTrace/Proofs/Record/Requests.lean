import Mathlib.Algebra.Ring.Nat
import CallTrace.Record.Requests
import CallTrace.Proofs.Record.Hashing

/-!
# Requests for bytes

Who reads a log asks for bytes, and goes on as the answer is: for one byte after the other of a
length, for a payload, and at last for one chunk after the other until there is none. Each answer
is hashed as it comes. What is hashed so are just the bytes that were taken off the stream, none
of them left out and none of them twice.
-/

namespace CallTrace

namespace Requests

variable [Memory] {α β : Type}

/-- The consumer is answered from a stream. -/
def on : Requests α → ByteStream → α × ByteStream
  | done a, s => (a, s)
  | ask count next, s => (next (s.read count).1).on (s.read count).2

/-- The consumer is answered from a hashed stream, answer by answer. -/
def onHashed : Requests α → HashedStream → α × HashedStream
  | done a, r => (a, r)
  | ask count next, r => (next (r.read count).1).onHashed (r.read count).2

theorem on_andThen (p : Requests α) (f : α → Requests β) (s : ByteStream) :
    (p.andThen f).on s = (f (p.on s).1).on (p.on s).2 := by
  induction p generalizing s with
  | done a => rfl
  | ask count next ih => exact ih _ _

end Requests

variable [Memory]

/-- Wherever a consumer stops, it leaves the end of the stream. -/
theorem Requests.rest_on_suffix {α : Type} (p : Requests α) (s : ByteStream) :
    (p.on s).2.rest <:+ s.rest := by
  induction p generalizing s with
  | done a => exact List.suffix_refl _
  | ask count next ih => exact (ih _ _).trans ⟨_, s.append_read count⟩

namespace HashedStream

variable {α : Type}

omit [Memory] in
/-- What a consumer took is what stood before that which it left. -/
theorem hasher_through (r : HashedStream) (consume : ByteStream → α × ByteStream)
    {taken : List UInt8} (h : taken ++ (consume r.stream).2.rest = r.stream.rest) :
    (r.through consume).2.hasher = r.hasher.update taken := by
  have hlength : r.stream.rest.length - (consume r.stream).2.rest.length = taken.length := by
    rw [← h, List.length_append]
    omega
  change r.hasher.update (r.stream.rest.take _) = _
  rw [hlength, ← h, List.take_left]

/-- An answer is hashed as it comes; a refusal leaves nothing to be hashed. -/
theorem read_eq (r : HashedStream) (count : Option Int) :
    r.read count =
      ((r.stream.read count).1,
        ⟨(r.stream.read count).2,
          r.hasher.update ((r.stream.read count).1.toOption.getD [])⟩) := by
  have hhasher := r.hasher_through (fun s => s.read count) (r.stream.append_read count)
  rw [← hhasher]
  rfl

end HashedStream

/-- To hash answer by answer is to hash all that the consumer took. -/
theorem Requests.onHashed_eq {α : Type} (p : Requests α) (r : HashedStream) :
    p.onHashed r = r.through p.on := by
  induction p generalizing r with
  | done a =>
    have hhasher := r.hasher_through (Requests.done a).on (List.nil_append _)
    exact Prod.ext rfl (congrArg (HashedStream.mk r.stream) hhasher.symm)
  | ask count next ih =>
    -- The bytes of the first answer stand before those that all the other answers hand out.
    obtain ⟨taken, htaken⟩ := (next (r.stream.read count).1).rest_on_suffix (r.stream.read count).2
    have hall : ((r.stream.read count).1.toOption.getD [] ++ taken) ++
        ((ask count next).on r.stream).2.rest = r.stream.rest := by
      rw [List.append_assoc]
      exact (congrArg _ htaken).trans (r.stream.append_read count)
    have hfirst : (r.read count).2.hasher =
        r.hasher.update ((r.stream.read count).1.toOption.getD []) := by
      rw [HashedStream.read_eq]
    have hothers := (r.read count).2.hasher_through (next (r.read count).1).on htaken
    have hhasher := r.hasher_through (ask count next).on hall
    rw [Sha256.Hasher.update_append, ← hfirst, ← hothers] at hhasher
    rw [onHashed, ih]
    exact Prod.ext rfl (congrArg (HashedStream.mk _) hhasher.symm)

theorem chunkSize_lt_bound (medium : Medium) : chunkSize < medium.bound := by
  cases medium with
  | memory => exact (by decide : chunkSize < indexBound)
  | file => exact Nat.lt_min.mpr ⟨by decide, Memory.chunkSize_lt⟩

/-- A request for one byte is granted as long as there is one. -/
theorem ByteStream.take_one (s : ByteStream) :
    s.take 1 = (.ok (s.rest.take 1), { s with rest := s.rest.drop 1 }) := by
  have hgranted : s.medium.refusal? 1 = none :=
    (s.medium.refusal?_eq_none_iff 1).mpr (Nat.lt_trans (by decide) (chunkSize_lt_bound _))
  rw [take, hgranted]

omit [Memory] in
/-- The low bits of a byte are a group, and the high bit tells whether another group follows. -/
theorem group_of_byte (b : UInt8) :
    b.toNat &&& 0x7f = b.toNat % 128 ∧ (b.toNat &&& 0x80 = 0 ↔ b.toNat < 128) := by
  have hall : ∀ n < 256, n &&& 0x7f = n % 128 ∧ (n &&& 0x80 = 0 ↔ n < 128) := by decide +kernel
  exact hall _ b.toNat_lt

/-- What an answer of one byte leads to. -/
theorem on_askLength_cons (limit shift value : Nat) (hvalue : value < 1 <<< shift) (b : UInt8)
    (bytes : List UInt8) (medium : Medium) :
    (askLength (limit + 1) shift value).on ⟨b :: bytes, medium⟩ =
      if b.toNat < 128 then (.ok (some (value + b.toNat <<< shift)), ⟨bytes, medium⟩)
      else (askLength limit (shift + 7) (value + (b.toNat - 128) <<< shift)).on
        ⟨bytes, medium⟩ := by
  obtain ⟨hlow, hlast⟩ := group_of_byte b
  have hb : b.toNat < 256 := b.toNat_lt
  have hnext : value ||| ((b.toNat &&& 0x7f) <<< shift) = value + (b.toNat % 128) <<< shift := by
    rw [Nat.one_shiftLeft] at hvalue
    rw [hlow, Nat.or_comm, ← Nat.shiftLeft_add_eq_or_of_lt hvalue, Nat.add_comm]
  rw [askLength, Requests.on]
  change Requests.on _ (ByteStream.take _ 1).2 = _
  simp only [ByteStream.read, ByteStream.take_one, List.take_succ_cons, List.drop_succ_cons,
    List.drop_zero]
  rw [hnext]
  by_cases h : b.toNat < 128
  · rw [if_pos (hlast.mpr h), if_pos h, Nat.mod_eq_of_lt h]
    rfl
  · rw [if_neg (mt hlast.mp h), if_neg h, show b.toNat % 128 = b.toNat - 128 by omega]

/-- The length that is asked for byte by byte is the one that a scan finds. -/
theorem on_askLength (limit shift value : Nat) (hvalue : value < 1 <<< shift) (s : ByteStream) :
    (askLength limit shift value).on s =
      match Varint.scan limit s.rest with
      | .value n rest => (.ok (some (value + n <<< shift)), { s with rest := rest })
      | .truncated =>
        (if shift = 0 ∧ s.rest = [] then .ok none else .error (.record .truncatedLength),
          { s with rest := [] })
      | .overlong rest => (.error (.record .overlongLength), { s with rest := rest }) := by
  obtain ⟨bytes, medium⟩ := s
  induction limit generalizing shift value bytes with
  | zero =>
    rw [Varint.scan_zero]
    rfl
  | succ limit ih =>
    cases bytes with
    | nil =>
      rw [Varint.scan_nil, askLength, Requests.on]
      change Requests.on _ (ByteStream.take _ 1).2 = _
      simp only [ByteStream.read, ByteStream.take_one, List.take_nil, List.drop_nil, and_true]
      rfl
    | cons b bytes =>
      rw [on_askLength_cons _ _ _ hvalue, Varint.scan_cons]
      by_cases h : b.toNat < 128
      · rw [if_pos h, if_pos h]
      · -- The groups so far leave free the bits of those to come.
        have hbelow : value + (b.toNat - 128) <<< shift < 1 <<< (shift + 7) := by
          have hb : b.toNat < 256 := b.toNat_lt
          have hgroup := Nat.mul_le_mul_right (2 ^ shift) (show b.toNat - 128 ≤ 127 by omega)
          rw [Nat.one_shiftLeft] at hvalue ⊢
          rw [Nat.shiftLeft_eq, Nat.pow_add]
          omega
        rw [if_neg h, if_neg h, ih _ _ hbelow]
        cases Varint.scan limit bytes with
        | value n rest =>
          have hsum : value + (b.toNat - 128) <<< shift + n <<< (shift + 7) =
              value + (b.toNat - 128 + 128 * n) <<< shift := by
            simp only [Nat.shiftLeft_eq, Nat.pow_add]
            grind
          simp only [Varint.Scan.below, hsum]
        | truncated => simp [Varint.Scan.below]
        | overlong rest => rfl

/-- What is asked for of a length is what is read of it. -/
theorem on_askLength_eq_readLength (s : ByteStream) :
    (askLength lengthLimit 0 0).on s =
      match s.readLength with
      | (.error e, s') => (.error (.record e), s')
      | (.ok length, s') => (.ok length, s') := by
  rw [on_askLength _ _ _ (by decide), ByteStream.readLength]
  obtain ⟨bytes, medium⟩ := s
  cases bytes with
  | nil => rfl
  | cons b bytes =>
    dsimp only [List.isEmpty_cons, Bool.false_eq_true]
    rw [if_neg Bool.false_ne_true]
    cases Varint.scan lengthLimit (b :: bytes) with
    | value n rest => simp only [Nat.zero_add, Nat.shiftLeft_zero]
    | truncated => simp only [reduceCtorEq, and_false, if_false]
    | overlong rest => rfl

/-- A record that is asked for is the one that is read. -/
theorem on_askRecord (t : MessageType) (taken : Nat) (s : ByteStream) :
    (askRecord t taken).on s =
      (((⟨s, taken⟩ : RecordStream).read t).1, ((⟨s, taken⟩ : RecordStream).read t).2.stream) := by
  rw [askRecord, Requests.on_andThen, on_askLength_eq_readLength, RecordStream.read]
  rcases s.readLength with ⟨e | _ | length, s'⟩
  · rfl
  · rfl
  · dsimp only [Requests.on, ByteStream.read]
    rcases s'.take length with ⟨e | payload, s''⟩
    · rfl
    · dsimp only
      by_cases hlength : payload.length = length
      · rw [if_pos hlength, if_pos hlength]
        cases t.decode payload <;> rfl
      · rw [if_neg hlength, if_neg hlength]
        rfl

namespace HashedStream

/-- Read an entry off a hashed stream at once; the given number were read before. -/
def readEntry (log : HashedStream) (taken : Nat) :
    Except ReadError (Option LogEntry) × HashedStream :=
  log.through fun s =>
    let (outcome, records) := (⟨s, taken⟩ : RecordStream).read .logEntry
    (outcome, records.stream)

/-- An entry is read off a log request by request, and hashed answer by answer. -/
theorem readEntry_eq (log : HashedStream) (taken : Nat) :
    log.readEntry taken = (askRecord .logEntry taken).onHashed log := by
  rw [Requests.onHashed_eq, readEntry]
  exact congrArg log.through (funext fun s => (on_askRecord .logEntry taken s).symm)

/-- An answer that is not empty leaves less on the stream. -/
theorem length_lt_of_read {r r' : HashedStream} {count : Option Int} {b : UInt8}
    {bytes : List UInt8} (h : r.read count = (.ok (b :: bytes), r')) :
    r'.stream.rest.length < r.stream.rest.length := by
  rw [read_eq] at h
  obtain ⟨hanswer, rfl⟩ := Prod.mk.inj h
  rw [← r.stream.append_read count, hanswer, List.length_append]
  exact Nat.lt_add_of_pos_left (Nat.succ_pos _)

/-- Ask for chunks of a size until one is empty. -/
def drain (size : Nat) (r : HashedStream) : HashedStream :=
  match _h : r.read (some size) with
  | (.ok (_ :: _), r') => r'.drain size
  | (_, r') => r'
termination_by r.stream.rest.length
decreasing_by exact length_lt_of_read _h

theorem drain_of_more {r r' : HashedStream} {size : Nat} {b : UInt8} {bytes : List UInt8}
    (h : r.read (some size) = (.ok (b :: bytes), r')) : r.drain size = r'.drain size := by
  rw [drain]
  split <;> rename_i h'
  · cases h.symm.trans h'
    rfl
  · next hnot =>
    cases h.symm.trans h'
    exact absurd rfl (hnot b bytes)

theorem drain_of_no_more {r r' : HashedStream} {size : Nat}
    {answer : Except RequestError (List UInt8)} (h : r.read (some size) = (answer, r'))
    (hnot : ∀ b bytes, answer ≠ .ok (b :: bytes)) : r.drain size = r' := by
  rw [drain]
  split <;> rename_i h'
  · cases h.symm.trans h'
    exact absurd rfl (hnot _ _)
  · cases h.symm.trans h'
    rfl

theorem read_of_granted {r : HashedStream} {size : Nat} (h : size < r.stream.medium.bound) :
    r.read (some size) =
      (.ok (r.stream.rest.take size),
        ⟨{ r.stream with rest := r.stream.rest.drop size },
          r.hasher.update (r.stream.rest.take size)⟩) := by
  have hgranted := (r.stream.medium.refusal?_eq_none_iff size).mpr h
  have hread : r.stream.read (some size) =
      (.ok (r.stream.rest.take size), { r.stream with rest := r.stream.rest.drop size }) := by
    change r.stream.take size = _
    rw [ByteStream.take, hgranted]
  rw [read_eq, hread]
  rfl

/-- Whatever the size of the chunks is, all that is left is hashed, and none of it twice. -/
theorem drain_eq {size : Nat} (hpos : 0 < size) (r : HashedStream)
    (hsize : size < r.stream.medium.bound) :
    r.drain size = ⟨{ r.stream with rest := [] }, r.total⟩ := by
  fun_induction drain size r with
  | case1 r b bytes r' h ih =>
    rw [read_of_granted hsize] at h
    obtain ⟨-, rfl⟩ := Prod.mk.inj h
    rw [ih hsize, total, total, ← Sha256.Hasher.update_append, List.take_append_drop]
  | case2 r outcome r' hnot h =>
    rw [read_of_granted hsize] at h
    obtain ⟨rfl, rfl⟩ := Prod.mk.inj h
    have hnil : r.stream.rest = [] := by
      cases hrest : r.stream.rest with
      | nil => rfl
      | cons b bytes =>
        obtain ⟨n, rfl⟩ := Nat.exists_eq_add_one_of_ne_zero (Nat.ne_of_gt hpos)
        rw [hrest] at hnot
        exact absurd rfl (hnot b (bytes.take n))
    rw [total, hnil, List.take_nil, List.drop_nil]

/-- A stream that is drained in chunks has the label of the whole. -/
theorem label_eq_drain {size : Nat} (hpos : 0 < size) (r : HashedStream)
    (hsize : size < r.stream.medium.bound) :
    r.label = ((r.drain size).hasher.label, r.drain size) := by
  have hall := r.hasher_through ByteStream.takeAll (List.append_nil r.stream.rest)
  rw [drain_eq hpos r hsize, total, ← hall]
  rfl

end HashedStream

/-! ### Logs on a device -/

namespace OpenLog

variable {log log' : OpenLog} {count : Option Int} {answer : Except RequestError (List UInt8)}

/-- An answer is that of the bytes, and the device stays what it is. -/
theorem read_eq_ok (h : log.read count = .ok (answer, log')) :
    log.bytes.read count = (answer, log'.bytes) ∧ log'.fault? = log.fault? := by
  unfold read at h
  dsimp only at h
  cases hfault : log.fault? with
  | none =>
    rw [hfault] at h
    cases h
    exact ⟨rfl, rfl⟩
  | some refusal =>
    rw [hfault] at h
    dsimp only at h
    split at h <;> cases h
    exact ⟨rfl, rfl⟩

/-- A device that does not fail answers all requests. -/
theorem read_of_sound (h : log.fault? = none) (count : Option Int) :
    log.read count = .ok ((log.bytes.read count).1, ⟨(log.bytes.read count).2, none⟩) := by
  unfold read
  dsimp only
  rw [h]

/-- A device tells of nothing but its fault. -/
theorem fault_of_read {refusal : Refusal} (h : log.read count = .error refusal) :
    log.fault? = some refusal := by
  unfold read at h
  dsimp only at h
  cases hfault : log.fault? with
  | none =>
    rw [hfault] at h
    cases h
  | some refusal' =>
    rw [hfault] at h
    dsimp only at h
    split at h <;> cases h
    rfl

end OpenLog

namespace Requests

variable {α : Type} {p : Requests α} {log log' : OpenLog} {a : α}

/-- A consumer that is not cut short comes to what it comes to on the bytes. -/
theorem onLog_eq_ok (h : p.onLog log = .ok (a, log')) :
    p.onHashed log.bytes = (a, log'.bytes) ∧ log'.fault? = log.fault? := by
  induction p generalizing log with
  | done b =>
    cases h
    exact ⟨rfl, rfl⟩
  | ask count next ih =>
    rw [onLog] at h
    cases hr : log.read count with
    | error refusal =>
      rw [hr] at h
      cases h
    | ok r =>
      rw [hr] at h
      obtain ⟨hbytes, hfault⟩ := OpenLog.read_eq_ok hr
      obtain ⟨hrest, hsame⟩ := ih _ h
      rw [onHashed, hbytes]
      exact ⟨hrest, hsame.trans hfault⟩

/-- A consumer is cut short by the fault of the device alone. -/
theorem fault_of_onLog {refusal : Refusal} (h : p.onLog log = .error refusal) :
    log.fault? = some refusal := by
  induction p generalizing log with
  | done b => cases h
  | ask count next ih =>
    rw [onLog] at h
    cases hr : log.read count with
    | error refusal' =>
      rw [hr] at h
      cases h
      exact OpenLog.fault_of_read hr
    | ok r =>
      rw [hr] at h
      rw [← (OpenLog.read_eq_ok hr).2]
      exact ih _ h

end Requests

namespace OpenLog

variable {log : OpenLog}

/-- A log that can be read to its end has the label of the whole. -/
theorem label_of_sound (h : log.fault? = none) :
    log.label = .ok (log.bytes.drain chunkSize).hasher.label := by
  fun_induction label log with
  | case1 log refusal hr =>
    rw [read_of_sound h] at hr
    cases hr
  | case2 log b bytes log' hr ih =>
    obtain ⟨hbytes, hfault⟩ := read_eq_ok hr
    rw [ih (hfault.trans h), HashedStream.drain_of_more hbytes]
  | case3 log answer log' hnot hr =>
    have hdrained := HashedStream.drain_of_no_more (read_eq_ok hr).1 fun b bytes he =>
      hnot b bytes he
    rw [hdrained]

/-- A log on a device that fails is never read to its end. -/
theorem label_of_fault {refusal : Refusal} (h : log.fault? = some refusal) :
    log.label = .error refusal := by
  fun_induction label log with
  | case1 log refusal' hr => rw [Except.error.injEq, ← Option.some.injEq, ← fault_of_read hr, h]
  | case2 log b bytes log' hr ih => exact ih ((read_eq_ok hr).2.trans h)
  | case3 log answer log' hnot hr =>
    -- An answer that ends the loop has fewer bytes than a chunk, so the fault was met.
    have hgranted := HashedStream.read_of_granted (chunkSize_lt_bound log.bytes.stream.medium)
    rw [read, hgranted] at hr
    dsimp only at hr
    rw [h] at hr
    have hnil : log.bytes.stream.rest.take chunkSize = [] := by
      cases htaken : log.bytes.stream.rest.take chunkSize with
      | nil => rfl
      | cons b bytes =>
        rw [htaken] at hr
        dsimp only at hr
        split at hr <;> cases hr
        exact absurd rfl (hnot b bytes)
    rw [hnil] at hr
    cases hr

end OpenLog

end CallTrace
