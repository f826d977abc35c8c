import Mathlib.Data.List.Forall2
import CallTrace.Proofs.Message.RoundTrip
import CallTrace.Proofs.Record.Framing

/-!
# Writing and reading records

A record that was written is read back where it stands, whatever stands behind
it. So the records of messages that were decoded, one behind the other, are read
as those messages, each read takes just the bytes of one record, and writing what
was read gives the same bytes.
-/

namespace CallTrace

section

variable [Memory]

/-- A message that some bytes encode, and that a medium hands out as a whole once it is written. -/
structure MessageType.Storable (t : MessageType) (medium : Medium) (m : t.Message) : Prop where
  /-- Some bytes are decoded as the message. -/
  decoded : ∃ bytes, t.decode bytes = .ok m
  /-- What is written of the message can be asked for at once. -/
  fits : (t.encode m).length < medium.bound

namespace MessageType

variable {t : MessageType} {medium : Medium} {m : t.Message}

theorem Storable.decode_encode (h : t.Storable medium m) : t.decode (t.encode m) = .ok m := by
  obtain ⟨bytes, hd⟩ := h.decoded
  exact MessageType.decode_encode hd

/-- What is written of messages that can be stored is decoded, all of it. -/
theorem countMessages_encode {ms : List t.Message} (hs : ∀ m ∈ ms, t.Storable medium m) :
    t.countMessages (ms.map t.encode) = ms.length := by
  rw [countMessages, List.countP_map, List.countP_eq_length]
  intro m hm
  rw [Function.comp_apply, (hs m hm).decode_encode]
  rfl

end MessageType

namespace RecordStream

variable {t : MessageType} {medium : Medium} {m : t.Message} {ms : List t.Message}

/-- A record at the front of a stream is read as its message and taken off the stream. -/
theorem read_of_record (h : t.Storable medium m) (rest : List UInt8) (taken : Nat) :
    (⟨⟨t.record m ++ rest, medium⟩, taken⟩ : RecordStream).read t =
      (.ok (some m), ⟨⟨rest, medium⟩, taken + 1⟩) := by
  rw [read_of_payload rfl h.fits, h.decode_encode]

/-- What is read off a stream begins with the messages whose records stand at its front. -/
theorem readAll_of_records (hs : ∀ m ∈ ms, t.Storable medium m) (rest : List UInt8)
    (taken : Nat) :
    (⟨⟨ms.flatMap t.record ++ rest, medium⟩, taken⟩ : RecordStream).readAll t =
      (ms ++ ((⟨⟨rest, medium⟩, taken + ms.length⟩ : RecordStream).readAll t).1,
        ((⟨⟨rest, medium⟩, taken + ms.length⟩ : RecordStream).readAll t).2) := by
  induction ms generalizing taken with
  | nil => rfl
  | cons m ms ih =>
    obtain ⟨hm, hs⟩ := List.forall_mem_cons.mp hs
    rw [List.flatMap_cons, List.append_assoc, readAll_of_some (read_of_record hm _ _), ih hs]
    simp only [List.length_cons, Nat.add_assoc, Nat.add_comm 1, List.cons_append]

/-- After each read a stream of records stands behind the records that were read. -/
theorem afterReads_of_written (hs : ∀ m ∈ ms, t.Storable medium m) (n : Nat) :
    afterReads t n ⟨⟨ms.flatMap t.record, medium⟩, 0⟩ =
      ⟨⟨(ms.drop n).flatMap t.record, medium⟩, min n ms.length⟩ := by
  have hpayloads : ∀ ms : List t.Message,
      (ms.map t.encode).flatMap delimit = ms.flatMap t.record := fun ms => List.flatMap_map ..
  have hb : ∀ payload ∈ ms.map t.encode, payload.length < medium.bound :=
    List.forall_mem_map.mpr fun m hm => (hs m hm).fits
  have hcount : t.countMessages ((ms.take n).map t.encode) = min n ms.length := by
    rw [MessageType.countMessages_encode fun m hm => hs m (List.mem_of_mem_take hm),
      List.length_take]
  have hafter := afterReads_of_framed (t := t) hb n
  rw [← List.map_drop, ← List.map_take, hpayloads, hpayloads, hcount] at hafter
  exact hafter

end RecordStream

/--
Messages that were decoded, written one behind the other, are read back in order, and then there is
nothing left to read. After each read the stream stands behind as many bytes as were written of the
messages read so far. What was read is written as the same bytes again. Only messages so long that
the medium does not hand them out at once are left aside.
-/
theorem reads_of_written (t : MessageType) (medium : Medium) {payloads : List (List UInt8)}
    {ms : List t.Message} (hd : List.Forall₂ (fun bytes m => t.decode bytes = .ok m) payloads ms)
    (hlt : ∀ m ∈ ms, (t.encode m).length < medium.bound) :
    let data := ms.flatMap t.record
    let start : RecordStream := ⟨⟨data, medium⟩, 0⟩
    let after := fun n => RecordStream.afterReads t n start
    (∀ i (hi : i < ms.length), ((after i).read t).1 = .ok (some ms[i])) ∧
      (∀ n, ms.length ≤ n → ((after n).read t).1 = .ok none) ∧
      (∀ i ≤ ms.length, (after i).position data =
        ((ms.take i).map fun m => (t.record m).length).sum) ∧
      (∀ n, (after n).taken = min n ms.length) ∧
      start.readAll t = (ms, none) ∧
      (start.readAll t).1.flatMap t.record = data := by
  intro data start after
  have hs : ∀ m ∈ ms, t.Storable medium m := by
    intro m hm
    obtain ⟨i, hi, rfl⟩ := List.getElem_of_mem hm
    have hb := (List.forall₂_iff_get.mp hd).2 i (hd.length_eq ▸ hi) hi
    exact ⟨⟨_, hb⟩, hlt _ hm⟩
  have hafter : ∀ n, after n = ⟨⟨(ms.drop n).flatMap t.record, medium⟩, min n ms.length⟩ :=
    RecordStream.afterReads_of_written hs
  have hall : start.readAll t = (ms, none) := by
    have h := RecordStream.readAll_of_records hs [] 0
    have hend := RecordStream.readAll_of_none
      (RecordStream.read_of_nil (r := ⟨⟨[], medium⟩, 0 + ms.length⟩) t rfl)
    rw [List.append_nil, hend, List.append_nil] at h
    exact h
  refine ⟨fun i hi => ?_, fun n hn => ?_, fun i hi => ?_, fun n => ?_, hall, ?_⟩
  · rw [hafter, List.drop_eq_getElem_cons hi, List.flatMap_cons]
    exact congrArg Prod.fst (RecordStream.read_of_record (hs _ (List.getElem_mem hi)) _ _)
  · have hrest : (after n).stream.rest = [] := by
      rw [hafter, List.drop_eq_nil_of_le hn, List.flatMap_nil]
    rw [RecordStream.read_of_nil t hrest]
  · have hdata : data.length = ((ms.take i).flatMap t.record).length +
        ((ms.drop i).flatMap t.record).length := by
      rw [← List.length_append, ← List.flatMap_append, List.take_append_drop]
    rw [RecordStream.position, hafter, hdata, Nat.add_sub_cancel, List.length_flatMap]
  · rw [hafter]
  · rw [hall]

end

/-- An operation written out of order, with a number that is too long and a member chosen twice. -/
def sampleOperationBytes : List UInt8 :=
  [ 0x48, 0x85, 0x00, 0x22, 0x0b, 0x08, 0xff, 0xff, 0xff, 0xff, 0xff, 0xff, 0xff, 0xff, 0xff,
    0x01, 0x2a, 0x03, 0x0a, 0x01, 0x78, 0x18, 0x81, 0x80, 0x00, 0x0a, 0x01, 0x61, 0x2a, 0x03,
    0x12, 0x01, 0x07 ]

/-- The operation of those bytes, and one that failed. -/
def sampleOperations : List Operation :=
  [ { name := "a", done := true, result := some (.response { typeUrl := "x", value := [7] }),
      unknown := [0x48, 0x85, 0x00] },
    { result := some (.error { code := -1 }) } ]

attribute [local instance] Memory.addressable in
theorem reads_of_written_operations :
    List.Forall₂ (fun bytes m => MessageType.operation.decode bytes = .ok m)
      [sampleOperationBytes, sampleOperationBytes.extract 3 16] sampleOperations ∧
    (∀ m ∈ sampleOperations, (MessageType.operation.encode m).length < Medium.memory.bound) ∧
    (⟨⟨sampleOperations.flatMap MessageType.operation.record, .memory⟩, 0⟩ :
      RecordStream).readAll .operation = (sampleOperations, none) := by
  have hd : List.Forall₂ (fun bytes m => MessageType.operation.decode bytes = .ok m)
      [sampleOperationBytes, sampleOperationBytes.extract 3 16] sampleOperations :=
    .cons (by with_unfolding_all rfl) (.cons (by with_unfolding_all rfl) .nil)
  have hlt : ∀ m ∈ sampleOperations,
      (MessageType.operation.encode m).length < Medium.memory.bound := by
    simp only [sampleOperations, List.forall_mem_cons, List.not_mem_nil, false_implies,
      implies_true, and_true]
    exact ⟨by decide +kernel, by decide +kernel⟩
  obtain ⟨-, -, -, -, hall, -⟩ := reads_of_written .operation .memory hd hlt
  exact ⟨hd, hlt, hall⟩

end CallTrace
