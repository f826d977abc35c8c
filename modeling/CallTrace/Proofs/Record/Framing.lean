import CallTrace.Proofs.Record.Reading
import CallTrace.Proofs.Wire.Numbers

/-!
# Records of any payload

Bytes behind their length are taken off a stream whole, whether or not they are a
message. So a payload that is none costs one error and nothing else: the next read
stands at the next record, and the count is that of the payloads that are messages.
-/

namespace CallTrace

/-- How many of some payloads are messages. -/
def MessageType.countMessages (t : MessageType) (payloads : List (List UInt8)) : Nat :=
  payloads.countP fun payload => (t.decode payload).isOk

namespace MessageType

variable {t : MessageType} {payload : List UInt8} {payloads : List (List UInt8)}

theorem countMessages_cons_of_ok {m : t.Message} (h : t.decode payload = .ok m) :
    t.countMessages (payload :: payloads) = t.countMessages payloads + 1 :=
  List.countP_cons_of_pos (by rw [h]; rfl)

theorem countMessages_cons_of_error {e : DecodeError} (h : t.decode payload = .error e) :
    t.countMessages (payload :: payloads) = t.countMessages payloads :=
  List.countP_cons_of_neg (by rw [h]; exact Bool.false_ne_true)

end MessageType

namespace RecordStream

variable {r : RecordStream} {t : MessageType} {payload rest : List UInt8}
  {payloads : List (List UInt8)}

variable [Memory]

/-- A payload at the front of a stream is taken off whole and decoded. -/
theorem read_of_payload (hr : r.stream.rest = delimit payload ++ rest)
    (hb : payload.length < r.stream.medium.bound) :
    r.read t =
      match t.decode payload with
      | .error e =>
        (.error (.record (.invalid r.taken e)), { r with stream := { r.stream with rest := rest } })
      | .ok m => (.ok (some m), ⟨{ r.stream with rest := rest }, r.taken + 1⟩) := by
  have hs : Varint.scan lengthLimit r.stream.rest = .value payload.length (payload ++ rest) := by
    rw [hr, delimit, List.append_assoc]
    exact Varint.scan_encode (Nat.lt_trans hb r.stream.medium.bound_lt) _
  have hle : payload.length ≤ (payload ++ rest).length := by
    rw [List.length_append]
    omega
  have hread := read_of_granted t hs hb
  rw [if_pos hle, List.take_left, List.drop_left] at hread
  exact hread

/-- Whatever a payload is, the next read stands behind it, and it counts if it is a message. -/
theorem stream_read_of_payload (hr : r.stream.rest = delimit payload ++ rest)
    (hb : payload.length < r.stream.medium.bound) :
    (r.read t).2 = ⟨{ r.stream with rest := rest }, r.taken + t.countMessages [payload]⟩ := by
  rw [read_of_payload hr hb]
  cases hd : t.decode payload with
  | error e => rw [MessageType.countMessages_cons_of_error hd]; rfl
  | ok m => rw [MessageType.countMessages_cons_of_ok hd]; rfl

/-- As many reads as there are payloads at the front of a stream take just these. -/
theorem afterReads_of_payloads (hb : ∀ payload ∈ payloads, payload.length < r.stream.medium.bound)
    (hr : r.stream.rest = payloads.flatMap delimit ++ rest) :
    afterReads t payloads.length r =
      ⟨{ r.stream with rest := rest }, r.taken + t.countMessages payloads⟩ := by
  induction payloads generalizing r with
  | nil =>
    rw [List.flatMap_nil, List.nil_append] at hr
    rw [← hr]
    rfl
  | cons payload payloads ih =>
    obtain ⟨hfirst, hrest⟩ := List.forall_mem_cons.mp hb
    rw [List.flatMap_cons, List.append_assoc] at hr
    have hcount : t.countMessages [payload] + t.countMessages payloads =
        t.countMessages (payload :: payloads) :=
      (@List.countP_append _ _ [payload] payloads).symm
    have hnext := ih (r := ⟨{ r.stream with rest := payloads.flatMap delimit ++ rest },
      r.taken + t.countMessages [payload]⟩) hrest rfl
    rw [List.length_cons, afterReads, stream_read_of_payload hr hfirst, hnext, ← hcount,
      Nat.add_assoc]

/-- After each read a stream of payloads stands behind as many of them. -/
theorem afterReads_of_framed {medium : Medium}
    (hb : ∀ payload ∈ payloads, payload.length < medium.bound) (n : Nat) :
    afterReads t n ⟨⟨payloads.flatMap delimit, medium⟩, 0⟩ =
      ⟨⟨(payloads.drop n).flatMap delimit, medium⟩, t.countMessages (payloads.take n)⟩ := by
  have hfront : ∀ k ≤ payloads.length,
      afterReads t k ⟨⟨payloads.flatMap delimit, medium⟩, 0⟩ =
        ⟨⟨(payloads.drop k).flatMap delimit, medium⟩, t.countMessages (payloads.take k)⟩ := by
    intro k hk
    have hsplit : payloads.flatMap delimit =
        (payloads.take k).flatMap delimit ++ (payloads.drop k).flatMap delimit := by
      rw [← List.flatMap_append, List.take_append_drop]
    have h := afterReads_of_payloads (t := t) (r := ⟨⟨payloads.flatMap delimit, medium⟩, 0⟩)
      (fun payload hp => hb payload (List.mem_of_mem_take hp)) hsplit
    rw [List.length_take_of_le hk, Nat.zero_add] at h
    exact h
  rcases Nat.le_total n payloads.length with hn | hn
  · exact hfront n hn
  · have hall := hfront payloads.length (Nat.le_refl _)
    rw [List.drop_length, List.flatMap_nil, List.take_length] at hall
    rw [← Nat.add_sub_cancel' hn, afterReads_add, hall, afterReads_of_nil rfl,
      Nat.add_sub_cancel' hn, List.drop_eq_nil_of_le hn, List.take_of_length_le hn,
      List.flatMap_nil]

end RecordStream

section

variable [Memory]

/--
Any bytes, each behind their length, are read one after the other, whether or not the ones before
were messages. A read comes to the message that its bytes are, or to an error with the number of
messages read before it. Either way the stream then stands just behind the record, and after the
last one there is nothing left to read. No block of bytes is as long as the lengths that a medium
refuses.
-/
theorem reads_of_payloads (t : MessageType) (medium : Medium) {payloads : List (List UInt8)}
    (hb : ∀ payload ∈ payloads, payload.length < medium.bound) :
    let data := payloads.flatMap delimit
    let after := fun n => RecordStream.afterReads t n ⟨⟨data, medium⟩, 0⟩
    (∀ i (hi : i < payloads.length),
        (∀ m, t.decode payloads[i] = .ok m → ((after i).read t).1 = .ok (some m)) ∧
        (∀ e, t.decode payloads[i] = .error e → ((after i).read t).1 =
          .error (.record (.invalid (t.countMessages (payloads.take i)) e)))) ∧
      (∀ i ≤ payloads.length, (after i).position data =
        ((payloads.take i).map fun payload => (delimit payload).length).sum) ∧
      (∀ n, payloads.length ≤ n → ((after n).read t).1 = .ok none) ∧
      ∀ n, (after n).taken = t.countMessages (payloads.take n) := by
  intro data after
  have hafter : ∀ n, after n =
      ⟨⟨(payloads.drop n).flatMap delimit, medium⟩, t.countMessages (payloads.take n)⟩ :=
    RecordStream.afterReads_of_framed hb
  refine ⟨fun i hi => ?_, fun i hi => ?_, fun n hn => ?_, fun n => ?_⟩
  · have hrest : (after i).stream.rest =
        delimit payloads[i] ++ (payloads.drop (i + 1)).flatMap delimit := by
      rw [hafter, List.drop_eq_getElem_cons hi, List.flatMap_cons]
    have hbound : payloads[i].length < (after i).stream.medium.bound := by
      rw [hafter]
      exact hb _ (List.getElem_mem hi)
    have hread := RecordStream.read_of_payload (t := t) hrest hbound
    constructor
    · intro m hd
      rw [hread, hd]
    · intro e hd
      rw [hread, hd, hafter]
  · have hdata : data.length = ((payloads.take i).flatMap delimit).length +
        ((payloads.drop i).flatMap delimit).length := by
      rw [← List.length_append, ← List.flatMap_append, List.take_append_drop]
    rw [RecordStream.position, hafter, hdata, Nat.add_sub_cancel, List.length_flatMap]
  · have hrest : (after n).stream.rest = [] := by
      rw [hafter, List.drop_eq_nil_of_le hn, List.flatMap_nil]
    rw [RecordStream.read_of_nil t hrest]
  · rw [hafter]

/-- Bytes that end inside a text, an entry without content, bytes of no kind, and a named entry. -/
def mixedPayloads : List (List UInt8) := [[0x2a, 0x0a, 0x41], [], [0xff], [0x2a, 0x01, 0x61]]

end

attribute [local instance] Memory.addressable in
theorem reads_of_payloads_mixed :
    let data := mixedPayloads.flatMap delimit
    let after := fun n => RecordStream.afterReads .logEntry n ⟨⟨data, .memory⟩, 0⟩
    (∀ payload ∈ mixedPayloads, payload.length < Medium.memory.bound) ∧
      ((after 0).read .logEntry).1 =
        .error (.record (.invalid 0 ⟨"remote_logging.LogEntry", .corrupt⟩)) ∧
      ((after 1).read .logEntry).1 = .ok (some {}) ∧
      ((after 2).read .logEntry).1 =
        .error (.record (.invalid 1 ⟨"remote_logging.LogEntry", .corrupt⟩)) ∧
      ((after 3).read .logEntry).1 = .ok (some { methodName := "a" }) ∧
      ((after 4).read .logEntry).1 = .ok none ∧ (after 4).position data = 11 ∧
      (after 4).taken = 2 := by
  intro data after
  have hb : ∀ payload ∈ mixedPayloads, payload.length < Medium.memory.bound := by decide
  obtain ⟨hread, hposition, hend, htaken⟩ := reads_of_payloads .logEntry .memory hb
  have hone : MessageType.logEntry.countMessages (mixedPayloads.take 2) = 1 := by
    with_unfolding_all rfl
  refine ⟨hb, ?_, ?_, ?_, ?_, hend 4 (by decide), ?_, ?_⟩
  · exact (hread 0 (by decide)).2 _ (by with_unfolding_all rfl)
  · exact (hread 1 (by decide)).1 _ (by with_unfolding_all rfl)
  · rw [← hone]
    exact (hread 2 (by decide)).2 _ (by with_unfolding_all rfl)
  · exact (hread 3 (by decide)).1 _ (by with_unfolding_all rfl)
  · exact (hposition 4 (by decide)).trans (by with_unfolding_all rfl)
  · exact (htaken 4).trans (by with_unfolding_all rfl)

end CallTrace
