import Mathlib.Algebra.Ring.Nat
import Mathlib.Tactic.SplitIfs
import CallTrace.Record.Delimited

/-!
# Reading on and on

Records are read off a stream one after the other, each from where the last
read left the stream, whether or not that one came to anything. Wherever this
leads, the end of the stream is told just where no byte is left, and a read is
refused just where the declared length is beyond what the medium hands out.
All other reads come to a message or to an error that says what the bytes lack.
-/

namespace CallTrace

/-- The first count that a medium refuses. -/
def Medium.bound [Memory] : Medium → Nat
  | .memory => indexBound
  | .file => min (indexBound - blockOverhead) Memory.limit

/-- Ten bytes can say any length that a medium hands out. -/
theorem Medium.bound_lt [Memory] (medium : Medium) : medium.bound < 128 ^ (9 + 1) := by
  have hindex : indexBound < 128 ^ (9 + 1) := by decide
  cases medium with
  | memory => exact hindex
  | file =>
    exact Nat.lt_of_le_of_lt (Nat.le_trans (Nat.min_le_left _ _) (Nat.sub_le _ _)) hindex

theorem Medium.refusal?_eq_none_iff [Memory] (medium : Medium) (count : Nat) :
    medium.refusal? count = none ↔ count < medium.bound := by
  have ho : blockOverhead < indexBound := by decide
  unfold Medium.refusal?
  cases medium with
  | memory => simp [Medium.bound]
  | file =>
    simp only [Medium.bound, true_and, Nat.lt_min]
    split_ifs <;> simp only [false_iff, true_iff] <;> omega

/-- The input behind what was scanned. -/
def Varint.Scan.behind : Varint.Scan → List UInt8
  | .value _ rest => rest
  | .truncated => []
  | .overlong rest => rest

theorem Varint.Scan.behind_below (low : Nat) (scan : Varint.Scan) :
    (scan.below low).behind = scan.behind := by
  cases scan <;> rfl

/-- A scan leaves the end of its input. -/
theorem Varint.behind_scan_suffix (limit : Nat) (bytes : List UInt8) :
    (scan limit bytes).behind <:+ bytes := by
  induction bytes generalizing limit with
  | nil => cases limit <;> exact List.suffix_refl _
  | cons b bytes ih =>
    cases limit with
    | zero => exact List.suffix_refl _
    | succ limit =>
      rw [scan_cons]
      split
      · exact List.suffix_cons b bytes
      · rw [Scan.behind_below]
        exact (ih limit).trans (List.suffix_cons b bytes)

/-- A scan takes at least one byte. -/
theorem Varint.length_behind_scan_lt {limit : Nat} {bytes : List UInt8} (h : bytes ≠ []) :
    (scan (limit + 1) bytes).behind.length < bytes.length := by
  cases bytes with
  | nil => exact absurd rfl h
  | cons b bytes =>
    rw [scan_cons, List.length_cons]
    split
    · exact Nat.lt_succ_self _
    · rw [Scan.behind_below]
      exact Nat.lt_succ_of_le (behind_scan_suffix limit bytes).length_le

namespace RecordStream

variable {r : RecordStream} (t : MessageType)

variable [Memory]

/-- At the end of the stream there is nothing to read. -/
theorem read_of_nil (h : r.stream.rest = []) : r.read t = (.ok none, r) := by
  have hl : r.stream.readLength = (.ok none, r.stream) := by
    rw [ByteStream.readLength, h]
    rfl
  rw [read, hl]

/-- A stream that ends inside a length is read to its end. -/
theorem read_of_truncated (hr : r.stream.rest ≠ [])
    (h : Varint.scan lengthLimit r.stream.rest = .truncated) :
    r.read t =
      (.error (.record .truncatedLength), { r with stream := { r.stream with rest := [] } }) := by
  have hl : r.stream.readLength = (.error .truncatedLength, { r.stream with rest := [] }) := by
    rw [ByteStream.readLength, if_neg (by simpa using hr), h]
  rw [read, hl]

/-- A length that goes on for too long is left behind. -/
theorem read_of_overlong {rest : List UInt8}
    (h : Varint.scan lengthLimit r.stream.rest = .overlong rest) :
    r.read t =
      (.error (.record .overlongLength), { r with stream := { r.stream with rest := rest } }) := by
  have hr : r.stream.rest ≠ [] := by
    intro hr
    rw [hr] at h
    cases h
  have hl : r.stream.readLength = (.error .overlongLength, { r.stream with rest := rest }) := by
    rw [ByteStream.readLength, if_neg (by simpa using hr), h]
  rw [read, hl]

omit [Memory] in
theorem readLength_of_value {length : Nat} {rest : List UInt8}
    (h : Varint.scan lengthLimit r.stream.rest = .value length rest) :
    r.stream.readLength = (.ok (some length), { r.stream with rest := rest }) := by
  have hr : r.stream.rest ≠ [] := by
    intro hr
    rw [hr] at h
    cases h
  rw [ByteStream.readLength, if_neg (by simpa using hr), h]

/-- A length beyond what the medium hands out is refused behind the length. -/
theorem read_of_refused {length : Nat} {rest : List UInt8}
    (h : Varint.scan lengthLimit r.stream.rest = .value length rest)
    (hb : r.stream.medium.bound ≤ length) :
    ∃ e, r.read t =
      (.error (.request e), { r with stream := { r.stream with rest := rest } }) := by
  cases hf : r.stream.medium.refusal? length with
  | none =>
    have hlt := (r.stream.medium.refusal?_eq_none_iff length).mp hf
    omega
  | some e =>
    refine ⟨e, ?_⟩
    simp only [read, readLength_of_value h, ByteStream.take, hf]

/-- Bytes that are handed out are a message, no message, or too few. -/
theorem read_of_granted {length : Nat} {rest : List UInt8}
    (h : Varint.scan lengthLimit r.stream.rest = .value length rest)
    (hb : length < r.stream.medium.bound) :
    r.read t =
      if length ≤ rest.length then
        match t.decode (rest.take length) with
        | .error e => (.error (.record (.invalid r.taken e)),
            { r with stream := { r.stream with rest := rest.drop length } })
        | .ok m =>
          (.ok (some m), ⟨{ r.stream with rest := rest.drop length }, r.taken + 1⟩)
      else
        (.error (.record (.short r.taken length rest.length)),
          { r with stream := { r.stream with rest := [] } }) := by
  have hf := (r.stream.medium.refusal?_eq_none_iff length).mpr hb
  simp only [read, readLength_of_value h, ByteStream.take, hf]
  by_cases hle : length ≤ rest.length
  · have hlength : (rest.take length).length = length := by
      rw [List.length_take]
      omega
    cases hd : t.decode (rest.take length) <;> simp only [if_pos hlength, if_pos hle]
  · have hlength : (rest.take length).length = rest.length := by
      rw [List.length_take]
      omega
    have hdrop : rest.drop length = [] := List.drop_eq_nil_of_le (by omega)
    rw [hlength, if_neg (by omega), if_neg hle, hdrop]

/-- How a read moves a stream on. -/
inductive Step (r : RecordStream) (t : MessageType) :
    Except ReadError (Option t.Message) × RecordStream → Prop
  /-- At the end nothing moves. -/
  | ends (h : r.stream.rest = []) : Step r t (.ok none, r)
  /-- Some bytes are taken that come to nothing. -/
  | fault {e : ReadError} {rest : List UInt8} (hrest : rest <:+ r.stream.rest)
    (hlt : rest.length < r.stream.rest.length) :
    Step r t (.error e, { r with stream := { r.stream with rest := rest } })
  /-- A length and as many bytes as it declares are taken, and counted as a message. -/
  | message {m : t.Message} {length : Nat} {rest : List UInt8}
    (hs : Varint.scan lengthLimit r.stream.rest = .value length rest)
    (hle : length ≤ rest.length) :
    Step r t (.ok (some m), ⟨{ r.stream with rest := rest.drop length }, r.taken + 1⟩)

theorem step_read (r : RecordStream) : Step r t (r.read t) := by
  by_cases hr : r.stream.rest = []
  · rw [read_of_nil t hr]
    exact .ends hr
  · have hpos : 0 < r.stream.rest.length := List.length_pos_iff.mpr hr
    have hsuffix := Varint.behind_scan_suffix lengthLimit r.stream.rest
    have hlt : (Varint.scan lengthLimit r.stream.rest).behind.length < r.stream.rest.length :=
      Varint.length_behind_scan_lt hr
    cases h : Varint.scan lengthLimit r.stream.rest with
    | truncated =>
      rw [read_of_truncated t hr h]
      exact .fault List.nil_suffix hpos
    | overlong rest =>
      rw [h] at hsuffix hlt
      rw [read_of_overlong t h]
      exact .fault hsuffix hlt
    | value length rest =>
      rw [h] at hsuffix hlt
      by_cases hb : r.stream.medium.bound ≤ length
      · obtain ⟨e, he⟩ := read_of_refused t h hb
        rw [he]
        exact .fault hsuffix hlt
      · rw [read_of_granted t h (Nat.lt_of_not_le hb)]
        have hdrop : rest.drop length <:+ r.stream.rest :=
          (List.drop_suffix length rest).trans hsuffix
        have hless := Nat.lt_of_le_of_lt (List.drop_suffix length rest).length_le hlt
        split
        · next hle =>
          cases t.decode (rest.take length) with
          | error e => exact .fault hdrop hless
          | ok m => exact .message h hle
        · exact .fault List.nil_suffix hpos

/-- Wherever a read stops, it leaves the end of the stream. -/
theorem rest_read_suffix (r : RecordStream) : (r.read t).2.stream.rest <:+ r.stream.rest := by
  have hstep := r.step_read t
  generalize r.read t = result at hstep ⊢
  cases hstep with
  | ends h => exact List.suffix_refl _
  | fault hrest hlt => exact hrest
  | @message m length rest hs hle =>
    have hsuffix := Varint.behind_scan_suffix lengthLimit r.stream.rest
    rw [hs] at hsuffix
    exact (List.drop_suffix length rest).trans hsuffix

theorem medium_read (r : RecordStream) : (r.read t).2.stream.medium = r.stream.medium := by
  have hstep := r.step_read t
  generalize r.read t = result at hstep ⊢
  cases hstep with
  | ends h => rfl
  | fault hrest hlt => rfl
  | message hs hle => rfl

end RecordStream

section

variable [Memory]

/-- A record of a message stands at the front of a stream. -/
def RecordStream.Offers (r : RecordStream) (t : MessageType) (m : t.Message) : Prop :=
  ∃ length rest, Varint.scan lengthLimit r.stream.rest = .value length rest ∧
    length < r.stream.medium.bound ∧ length ≤ rest.length ∧ t.decode (rest.take length) = .ok m

/-- A length that the medium refuses stands at the front of a stream. -/
def RecordStream.Overreaches (r : RecordStream) : Prop :=
  ∃ length rest, Varint.scan lengthLimit r.stream.rest = .value length rest ∧
    r.stream.medium.bound ≤ length

namespace RecordStream

variable {r : RecordStream} {t : MessageType} {m : t.Message}

theorem Offers.rest_ne_nil (h : r.Offers t m) : r.stream.rest ≠ [] := by
  obtain ⟨length, rest, hs, -⟩ := h
  intro hr
  rw [hr] at hs
  cases hs

theorem Overreaches.rest_ne_nil (h : r.Overreaches) : r.stream.rest ≠ [] := by
  obtain ⟨length, rest, hs, -⟩ := h
  intro hr
  rw [hr] at hs
  cases hs

/-- A length that is refused is not that of a record. -/
theorem Offers.not_overreaches (h : r.Offers t m) : ¬ r.Overreaches := by
  obtain ⟨length, rest, hs, hlt, -⟩ := h
  intro ho
  obtain ⟨length', rest', hs', hle⟩ := ho
  cases hs.symm.trans hs'
  omega

/-- The four outcomes of a read, by what stands at the front of the stream. -/
theorem read_cases (r : RecordStream) (t : MessageType) :
    (r.stream.rest = [] ∧ (r.read t).1 = .ok none) ∨
      (r.Overreaches ∧ ∃ e, (r.read t).1 = .error (.request e)) ∨
      (∃ m, r.Offers t m ∧ (r.read t).1 = .ok (some m)) ∨
      (r.stream.rest ≠ [] ∧ ¬ r.Overreaches ∧ (∀ m, ¬ r.Offers t m) ∧
        ∃ e, (r.read t).1 = .error (.record e)) := by
  by_cases hr : r.stream.rest = []
  · exact .inl ⟨hr, by rw [read_of_nil t hr]⟩
  · -- Without a length at the front there is neither a record nor one that is refused.
    have hfault : (∀ length rest, Varint.scan lengthLimit r.stream.rest ≠ .value length rest) →
        ¬ r.Overreaches ∧ ∀ m, ¬ r.Offers t m := by
      intro hn
      refine ⟨fun ho => ?_, fun m hm => ?_⟩
      · obtain ⟨length, rest, hs, -⟩ := ho
        exact hn length rest hs
      · obtain ⟨length, rest, hs, -⟩ := hm
        exact hn length rest hs
    cases h : Varint.scan lengthLimit r.stream.rest with
    | truncated =>
      obtain ⟨ho, hm⟩ := hfault (by simp [h])
      exact .inr (.inr (.inr ⟨hr, ho, hm, _, by rw [read_of_truncated t hr h]⟩))
    | overlong rest =>
      obtain ⟨ho, hm⟩ := hfault (by simp [h])
      exact .inr (.inr (.inr ⟨hr, ho, hm, _, by rw [read_of_overlong t h]⟩))
    | value length rest =>
      by_cases hb : r.stream.medium.bound ≤ length
      · obtain ⟨e, he⟩ := read_of_refused t h hb
        exact .inr (.inl ⟨⟨length, rest, h, hb⟩, e, by rw [he]⟩)
      · have hread := read_of_granted t h (Nat.lt_of_not_le hb)
        have hover : ¬ r.Overreaches := by
          intro ho
          obtain ⟨length', rest', hs, hle⟩ := ho
          cases h.symm.trans hs
          exact hb hle
        by_cases hle : length ≤ rest.length
        · rw [if_pos hle] at hread
          cases hd : t.decode (rest.take length) with
          | ok m =>
            rw [hd] at hread
            exact .inr (.inr (.inl ⟨m, ⟨length, rest, h, Nat.lt_of_not_le hb, hle, hd⟩,
              by rw [hread]⟩))
          | error e =>
            rw [hd] at hread
            refine .inr (.inr (.inr ⟨hr, hover, fun m hm => ?_, _, by rw [hread]⟩))
            obtain ⟨length', rest', hs, -, -, hd'⟩ := hm
            cases h.symm.trans hs
            cases hd.symm.trans hd'
        · rw [if_neg hle] at hread
          refine .inr (.inr (.inr ⟨hr, hover, fun m hm => ?_, _, by rw [hread]⟩))
          obtain ⟨length', rest', hs, -, hle', -⟩ := hm
          cases h.symm.trans hs
          exact hle hle'

/-- A read tells of the end of the stream just where no byte is left. -/
theorem read_eq_none_iff (r : RecordStream) (t : MessageType) :
    (r.read t).1 = .ok none ↔ r.stream.rest = [] := by
  rcases r.read_cases t with ⟨hr, h⟩ | ⟨ho, e, h⟩ | ⟨m, hm, h⟩ | ⟨hr, -, -, e, h⟩
  · exact iff_of_true h hr
  · exact iff_of_false (by simp [h]) ho.rest_ne_nil
  · exact iff_of_false (by simp [h]) hm.rest_ne_nil
  · exact iff_of_false (by simp [h]) hr

/-- A read comes to a message just where a record of it stands at the front. -/
theorem read_eq_some_iff (r : RecordStream) (t : MessageType) (m : t.Message) :
    (r.read t).1 = .ok (some m) ↔ r.Offers t m := by
  rcases r.read_cases t with ⟨hr, h⟩ | ⟨ho, e, h⟩ | ⟨m', hm, h⟩ | ⟨-, -, hn, e, h⟩
  · exact iff_of_false (by simp [h]) fun hm => hm.rest_ne_nil hr
  · exact iff_of_false (by simp [h]) fun hm => hm.not_overreaches ho
  · constructor
    · intro h'
      cases h.symm.trans h'
      exact hm
    · intro hm'
      obtain ⟨length, rest, hs, -, -, hd⟩ := hm
      obtain ⟨length', rest', hs', -, -, hd'⟩ := hm'
      cases hs.symm.trans hs'
      cases hd.symm.trans hd'
      exact h
  · exact iff_of_false (by simp [h]) (hn m)

/-- A read is refused just where the declared length overreaches. -/
theorem read_request_iff (r : RecordStream) (t : MessageType) :
    (∃ e, (r.read t).1 = .error (.request e)) ↔ r.Overreaches := by
  rcases r.read_cases t with ⟨hr, h⟩ | ⟨ho, e, h⟩ | ⟨m, hm, h⟩ | ⟨-, hn, -, e, h⟩
  · exact iff_of_false (by simp [h]) fun ho => ho.rest_ne_nil hr
  · exact iff_of_true ⟨e, h⟩ ho
  · exact iff_of_false (by simp [h]) hm.not_overreaches
  · exact iff_of_false (by simp [h]) hn

theorem readAll_of_error {r' : RecordStream} {e : ReadError} (h : r.read t = (.error e, r')) :
    r.readAll t = ([], some e) := by
  rw [readAll]
  split <;> simp_all

/-- A message that was read is counted. -/
theorem taken_of_read {r' : RecordStream} (h : r.read t = (.ok (some m), r')) :
    r'.taken = r.taken + 1 := by
  have hstep := r.step_read t
  rw [h] at hstep
  cases hstep with
  | message hs hle => rfl

theorem readAll_of_none {r' : RecordStream} (h : r.read t = (.ok none, r')) :
    r.readAll t = ([], none) := by
  rw [readAll]
  split <;> simp_all

theorem readAll_of_some {r' : RecordStream} (h : r.read t = (.ok (some m), r')) :
    r.readAll t = (m :: (r'.readAll t).1, (r'.readAll t).2) := by
  rw [readAll]
  split <;> simp_all

/-- Where a stream over the given bytes stands. -/
def position (r : RecordStream) (data : List UInt8) : Nat := data.length - r.stream.rest.length

/-- The stream after so many reads, each from where the one before it stopped. -/
def afterReads (t : MessageType) : Nat → RecordStream → RecordStream
  | 0, r => r
  | n + 1, r => afterReads t n (r.read t).2

theorem afterReads_of_nil (h : r.stream.rest = []) (n : Nat) : afterReads t n r = r := by
  induction n with
  | zero => rfl
  | succ n ih => rw [afterReads, read_of_nil t h, ih]

theorem afterReads_add (r : RecordStream) (n k : Nat) :
    afterReads t (n + k) r = afterReads t k (afterReads t n r) := by
  induction n generalizing r with
  | zero => rw [Nat.zero_add, afterReads]
  | succ n ih => rw [Nat.add_right_comm, afterReads, ih, afterReads]

/-- One more read is a read from where the others stopped. -/
theorem afterReads_succ (t : MessageType) (n : Nat) (r : RecordStream) :
    afterReads t (n + 1) r = ((afterReads t n r).read t).2 :=
  afterReads_add r n 1

/-- However often it was read, what is left is the end of the stream. -/
theorem rest_afterReads_suffix (r : RecordStream) (t : MessageType) (n : Nat) :
    (afterReads t n r).stream.rest <:+ r.stream.rest := by
  induction n generalizing r with
  | zero => exact List.suffix_refl _
  | succ n ih => exact (ih (r.read t).2).trans (r.rest_read_suffix t)

theorem medium_afterReads (r : RecordStream) (t : MessageType) (n : Nat) :
    (afterReads t n r).stream.medium = r.stream.medium := by
  induction n generalizing r with
  | zero => rfl
  | succ n ih => exact (ih (r.read t).2).trans (r.medium_read t)

end RecordStream

/--
After any number of reads into any bytes, the next read tells of the end just where no byte is
left, comes to a message just where a record of it stands next, and is refused just where the next
length is beyond what the medium hands out. All else is an error on the bytes.
-/
theorem reads_of_bytes (data : List UInt8) (medium : Medium) (t : MessageType) (n : Nat) :
    let r := RecordStream.afterReads t n ⟨⟨data, medium⟩, 0⟩
    r.stream.rest <:+ data ∧
      ((r.read t).1 = .ok none ↔ r.stream.rest = []) ∧
      (∀ m, (r.read t).1 = .ok (some m) ↔ r.Offers t m) ∧
      ((∃ e, (r.read t).1 = .error (.request e)) ↔
        ∃ length rest, Varint.scan lengthLimit r.stream.rest = .value length rest ∧
          medium.bound ≤ length) ∧
      ((∃ e, (r.read t).1 = .error (.record e)) ↔
        r.stream.rest ≠ [] ∧ (∀ m, ¬ r.Offers t m) ∧
          ∀ length rest, Varint.scan lengthLimit r.stream.rest = .value length rest →
            length < medium.bound) := by
  intro r
  have hmedium : r.stream.medium = medium := RecordStream.medium_afterReads _ t n
  have hnone := r.read_eq_none_iff t
  have hsome := r.read_eq_some_iff t
  have hrequest := r.read_request_iff t
  have hover : r.Overreaches ↔ ∃ length rest,
      Varint.scan lengthLimit r.stream.rest = .value length rest ∧ medium.bound ≤ length := by
    rw [RecordStream.Overreaches, hmedium]
  have hfit : (∀ length rest, Varint.scan lengthLimit r.stream.rest = .value length rest →
      length < medium.bound) ↔ ¬ r.Overreaches := by
    rw [hover]
    simp only [not_exists, not_and, Nat.not_le]
  refine ⟨RecordStream.rest_afterReads_suffix _ t n, hnone, hsome, hrequest.trans hover, ?_⟩
  rw [hfit, ← hrequest, ne_eq, ← hnone]
  simp only [← hsome]
  rcases (r.read t).1 with (e | e) | (none | m) <;> simp

end

attribute [local instance] Memory.addressable in
/-- A length of ten bytes may be beyond all that a medium hands out. -/
theorem read_refused_of_huge_length :
    let r : RecordStream :=
      ⟨⟨[0x80, 0x80, 0x80, 0x80, 0x80, 0x80, 0x80, 0x80, 0x80, 0x01], .memory⟩, 0⟩
    (r.read .logEntry).1 = .error (.request .beyondIndex) ∧
      ¬ ((∃ m, (r.read .logEntry).1 = .ok m) ∨ ∃ e, (r.read .logEntry).1 = .error (.record e)) := by
  intro r
  have h : (r.read .logEntry).1 = .error (.request .beyondIndex) := rfl
  refine ⟨h, ?_⟩
  rw [h]
  simp

end CallTrace
