import CallTrace.Proofs.Record.Writing

/-!
# Streams with the same front

A read looks at nothing behind the record it takes, so streams that begin with
the same bytes are read alike as far as these hold whole records. Written records
that are cut off anywhere are read up to the last whole one. What is left of the
next record is an error, unless the cut left nothing of it.
-/

namespace CallTrace

namespace RecordStream

variable {t : MessageType} {m : t.Message} {bytes : List UInt8} {medium : Medium} {taken : Nat}

variable [Memory]

/-- A record is read again where anything else stands behind it. -/
theorem read_again {r : RecordStream}
    (h : (⟨⟨bytes, medium⟩, taken⟩ : RecordStream).read t = (.ok (some m), r)) :
    ∃ used rest, bytes = used ++ rest ∧ r = ⟨⟨rest, medium⟩, taken + 1⟩ ∧ ∀ rest',
      (⟨⟨used ++ rest', medium⟩, taken⟩ : RecordStream).read t =
        (.ok (some m), ⟨⟨rest', medium⟩, taken + 1⟩) := by
  obtain ⟨length, body, hs, hb, hle, hd⟩ := (read_eq_some_iff _ t m).mp (congrArg Prod.fst h)
  obtain ⟨form, rfl, hscan⟩ := Varint.exists_form_of_scan hs
  have hlength : (body.take length).length = length := List.length_take_of_le hle
  have hread : ∀ rest', (⟨⟨form ++ body.take length ++ rest', medium⟩, taken⟩ :
      RecordStream).read t = (.ok (some m), ⟨⟨rest', medium⟩, taken + 1⟩) := by
    intro rest'
    have hs' : Varint.scan lengthLimit (form ++ body.take length ++ rest') =
        .value length (body.take length ++ rest') := by
      rw [List.append_assoc, hscan]
    have hle' : length ≤ (body.take length ++ rest').length := by
      rw [List.length_append, hlength]
      exact Nat.le_add_right _ _
    have hgranted := read_of_granted
      (r := ⟨⟨form ++ body.take length ++ rest', medium⟩, taken⟩) t hs' hb
    rw [if_pos hle', List.take_left' hlength, List.drop_left' hlength, hd] at hgranted
    exact hgranted
  have hsame := hread (body.drop length)
  rw [List.append_assoc, List.take_append_drop, h] at hsame
  refine ⟨form ++ body.take length, body.drop length, ?_, (Prod.mk.inj hsame).2, hread⟩
  rw [List.append_assoc, List.take_append_drop]

/-- A read either comes to a message, or nothing more is read off the stream. -/
theorem readAll_cases (r : RecordStream) (t : MessageType) :
    (r.readAll t).1 = [] ∨ ∃ m r', r.read t = (.ok (some m), r') := by
  obtain ⟨outcome, r', h⟩ : ∃ outcome r', r.read t = (outcome, r') := ⟨_, _, rfl⟩
  rcases outcome with e | (_ | m)
  · exact .inl (by rw [readAll_of_error h])
  · exact .inl (by rw [readAll_of_none h])
  · exact .inr ⟨m, r', h⟩

/-- The first messages are read again where anything else stands behind their records. -/
theorem readAll_again {n : Nat}
    (h : n ≤ ((⟨⟨bytes, medium⟩, taken⟩ : RecordStream).readAll t).1.length) :
    ∃ used, bytes = used ++ (afterReads t n ⟨⟨bytes, medium⟩, taken⟩).stream.rest ∧
      ∀ rest, ((⟨⟨bytes, medium⟩, taken⟩ : RecordStream).readAll t).1.take n <+:
        ((⟨⟨used ++ rest, medium⟩, taken⟩ : RecordStream).readAll t).1 := by
  induction n generalizing bytes taken with
  | zero => exact ⟨[], rfl, fun rest => List.nil_prefix⟩
  | succ n ih =>
    rcases readAll_cases ⟨⟨bytes, medium⟩, taken⟩ t with hnil | ⟨m, r', hr⟩
    · rw [hnil] at h
      exact absurd h (Nat.not_succ_le_zero n)
    · have hall := readAll_of_some hr
      obtain ⟨used, rest, rfl, rfl, hread⟩ := read_again hr
      rw [hall, List.length_cons] at h
      obtain ⟨used', hused', hagain⟩ := ih (Nat.le_of_succ_le_succ h)
      refine ⟨used ++ used', ?_, fun rest' => ?_⟩
      · rw [afterReads, hr, List.append_assoc, ← hused']
      · rw [hall, List.take_succ_cons, List.append_assoc, readAll_of_some (hread _)]
        exact (List.prefix_cons_inj m).mpr (hagain rest')

/-- What is left of a record that is cut off is no record. -/
theorem read_of_cut (medium : Medium) (taken : Nat) (h : t.Storable medium m) {cut : List UInt8}
    (hc : cut <+: t.record m) (hne : cut ≠ []) (hshort : cut ≠ t.record m) :
    ∃ e, ((⟨⟨cut, medium⟩, taken⟩ : RecordStream).read t).1 = .error (.record e) ∧
      (e = .truncatedLength ∨ ∃ remaining, e = .short taken (t.encode m).length remaining) := by
  have hlt : (t.encode m).length < 128 ^ (9 + 1) := Nat.lt_trans h.fits medium.bound_lt
  have hscan := Varint.scan_encode hlt
  rw [MessageType.record, delimit] at hc hshort
  by_cases hform : Varint.encode (t.encode m).length <+: cut
  · -- The length is whole, and the payload is not.
    obtain ⟨part, rfl⟩ := hform
    have hpart := (List.prefix_append_right_inj _).mp hc
    have hless : part.length < (t.encode m).length := by
      refine Nat.lt_of_le_of_ne hpart.length_le fun he => hshort ?_
      rw [hpart.eq_of_length he]
    have hread := read_of_granted
      (r := ⟨⟨Varint.encode (t.encode m).length ++ part, medium⟩, taken⟩) t (hscan part)
      h.fits
    rw [if_neg (Nat.not_le.mpr hless)] at hread
    exact ⟨_, congrArg Prod.fst hread, .inr ⟨_, rfl⟩⟩
  · have hcut : cut <+: Varint.encode (t.encode m).length :=
      (List.prefix_or_prefix_of_prefix hc (List.prefix_append _ _)).resolve_right hform
    have htruncated : Varint.scan lengthLimit cut = .truncated := by
      have hwhole := hscan []
      rw [List.append_nil] at hwhole
      exact Varint.scan_of_cut hwhole hcut fun he => hform (he ▸ List.prefix_refl _)
    have hread := read_of_truncated (r := ⟨⟨cut, medium⟩, taken⟩) t hne htruncated
    exact ⟨_, congrArg Prod.fst hread, .inl rfl⟩

end RecordStream

/-- How many of the records of some messages lie whole in the first so many bytes of them all. -/
def MessageType.wholeRecords (t : MessageType) : Nat → List t.Message → Nat
  | _, [] => 0
  | size, m :: ms =>
    if (t.record m).length ≤ size then t.wholeRecords (size - (t.record m).length) ms + 1 else 0

namespace MessageType

variable {t : MessageType}

/-- The first bytes of written records are whole records and part of the next one. -/
theorem exists_cut_of_take (size : Nat) (ms : List t.Message) :
    ∃ cut, (ms.flatMap t.record).take size =
        (ms.take (t.wholeRecords size ms)).flatMap t.record ++ cut ∧
      (cut ≠ [] → ∃ m ∈ ms, cut <+: t.record m ∧ cut ≠ t.record m) := by
  induction ms generalizing size with
  | nil => exact ⟨[], by simp, fun h => absurd rfl h⟩
  | cons m ms ih =>
    rw [wholeRecords]
    split
    · next hle =>
      obtain ⟨cut, htake, hcut⟩ := ih (size - (t.record m).length)
      refine ⟨cut, ?_, fun hne => ?_⟩
      · rw [List.flatMap_cons, List.take_append, List.take_of_length_le hle, htake,
          List.take_succ_cons, List.flatMap_cons, List.append_assoc]
      · obtain ⟨m', hm', hpart⟩ := hcut hne
        exact ⟨m', List.mem_cons_of_mem _ hm', hpart⟩
    · next hlt =>
      have hlt' : size < (t.record m).length := Nat.lt_of_not_le hlt
      refine ⟨(t.record m).take size, ?_, fun hne => ?_⟩
      · rw [List.take_zero, List.flatMap_nil, List.nil_append, List.flatMap_cons,
          List.take_append_of_le_length (Nat.le_of_lt hlt')]
      · refine ⟨m, List.mem_cons_self, List.take_prefix _ _, fun he => ?_⟩
        have hl := congrArg List.length he
        rw [List.length_take] at hl
        omega

/-- So many records lie whole in the first bytes as take no more than these. -/
theorem le_wholeRecords_iff {size n : Nat} {ms : List t.Message} (hn : n ≤ ms.length) :
    n ≤ t.wholeRecords size ms ↔ ((ms.take n).flatMap t.record).length ≤ size := by
  induction ms generalizing size n with
  | nil =>
    cases Nat.le_zero.mp hn
    simp
  | cons m ms ih =>
    cases n with
    | zero => simp
    | succ n =>
      rw [wholeRecords, List.take_succ_cons, List.flatMap_cons, List.length_append]
      split
      · next hle =>
        rw [Nat.add_le_add_iff_right, ih (Nat.le_of_succ_le_succ hn)]
        omega
      · next hlt => omega

theorem wholeRecords_le_length (t : MessageType) (size : Nat) (ms : List t.Message) :
    t.wholeRecords size ms ≤ ms.length := by
  induction ms generalizing size with
  | nil => exact Nat.le_refl 0
  | cons m ms ih =>
    rw [wholeRecords, List.length_cons]
    split
    · exact Nat.add_le_add_right (ih _) 1
    · exact Nat.zero_le _

/-- Nothing is left of a next record just where the cut is between two records. -/
theorem part_eq_nil_iff {size : Nat} {ms : List t.Message} {part : List UInt8}
    (hsize : size ≤ (ms.flatMap t.record).length)
    (htake : (ms.flatMap t.record).take size =
      (ms.take (t.wholeRecords size ms)).flatMap t.record ++ part) :
    part = [] ↔ ∃ n ≤ ms.length, size = ((ms.take n).flatMap t.record).length := by
  have hlength := congrArg List.length htake
  rw [List.length_take_of_le hsize, List.length_append] at hlength
  constructor
  · rintro rfl
    exact ⟨_, t.wholeRecords_le_length size ms, hlength⟩
  · intro h
    obtain ⟨n, hn, hat⟩ := h
    have hcount := (le_wholeRecords_iff hn).mpr (Nat.le_of_eq hat.symm)
    obtain ⟨between, hbetween⟩ := List.take_prefix_take_left (l := ms) hcount
    rw [← hbetween, List.flatMap_append, List.length_append] at hlength
    exact List.length_eq_zero_iff.mp (by omega)

end MessageType

end CallTrace
