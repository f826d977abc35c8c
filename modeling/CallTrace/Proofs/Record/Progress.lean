import Mathlib.Data.Nat.Find
import CallTrace.Proofs.Record.Reading
import CallTrace.Proofs.Wire.Numbers

/-!
# Progress

Every read that does not tell of the end takes at least one byte off the stream, whether it comes to
a message or to an error. So a stream is at its end after no more reads than it has bytes, and stays
there. Of the reads before, just those that came to a message are counted.
-/

namespace CallTrace

section

variable [Memory]

/-- Whether the next read comes to a message. -/
def RecordStream.yields (r : RecordStream) (t : MessageType) : Bool :=
  (r.read t).1.toOption.join.isSome

namespace RecordStream

variable {r : RecordStream} {t : MessageType}

/-- A read that finds bytes takes at least one of them. -/
theorem length_rest_read_lt (h : r.stream.rest ≠ []) :
    (r.read t).2.stream.rest.length < r.stream.rest.length := by
  have hstep := r.step_read t
  generalize r.read t = result at hstep ⊢
  cases hstep with
  | ends hnil => exact absurd hnil h
  | fault hrest hlt => exact hlt
  | @message m length rest hs hle =>
    have hlt := Varint.length_lt_of_scan hs
    have hdrop := (List.drop_suffix length rest).length_le
    exact Nat.lt_of_le_of_lt hdrop hlt

/-- A read counts just what it comes to. -/
theorem taken_read (r : RecordStream) (t : MessageType) :
    (r.read t).2.taken = r.taken + if r.yields t then 1 else 0 := by
  have hstep := r.step_read t
  unfold yields
  generalize r.read t = result at hstep ⊢
  cases hstep with
  | ends h => rfl
  | fault hrest hlt => rfl
  | message hs hle => rfl

/-- A message is taken off with the form of its length and with as many bytes as that declares. -/
theorem rest_read_of_message {m : t.Message} (h : (r.read t).1 = .ok (some m)) :
    ∃ form rest, r.stream.rest = form ++ rest ∧ Varint.IsForm form ∧
      Varint.value form ≤ rest.length ∧
      (r.read t).2.stream.rest = rest.drop (Varint.value form) := by
  have hstep := r.step_read t
  generalize r.read t = result at hstep h ⊢
  cases hstep with
  | ends hnil => cases h
  | fault hrest hlt => cases h
  | @message m length rest hs hle =>
    obtain ⟨form, hform, hisForm, -, rfl⟩ := Varint.scan_eq_value_iff.mp hs
    exact ⟨form, rest, hform, hisForm, hle, rfl⟩

/-- Each of so many reads has taken a byte, unless the end was reached. -/
theorem length_rest_afterReads (r : RecordStream) (t : MessageType) (n : Nat) :
    (afterReads t n r).stream.rest = [] ∨
      (afterReads t n r).stream.rest.length + n ≤ r.stream.rest.length := by
  induction n with
  | zero => exact .inr (Nat.le_refl _)
  | succ n ih =>
    rw [afterReads_succ]
    by_cases hnil : (afterReads t n r).stream.rest = []
    · rw [read_of_nil t hnil]
      exact .inl hnil
    · have hlt := length_rest_read_lt (t := t) hnil
      have hle := ih.resolve_left hnil
      exact .inr (by omega)

/-- What was counted after so many reads is how many of them came to a message. -/
theorem taken_afterReads (r : RecordStream) (t : MessageType) (n : Nat) :
    (afterReads t n r).taken =
      r.taken + (List.range n).countP fun i => (afterReads t i r).yields t := by
  induction n with
  | zero => rfl
  | succ n ih =>
    rw [afterReads_succ, taken_read, ih, List.range_succ, List.countP_append,
      List.countP_singleton, Nat.add_assoc]

/-- From some read on, no later than there are bytes, each tells of the end, and none before. -/
theorem exists_first_end (r : RecordStream) (t : MessageType) :
    ∃ k ≤ r.stream.rest.length, ∀ n, ((afterReads t n r).read t).1 = .ok none ↔ k ≤ n := by
  have hall : (afterReads t r.stream.rest.length r).stream.rest = [] := by
    rcases length_rest_afterReads r t r.stream.rest.length with hnil | hle
    · exact hnil
    · exact List.length_eq_zero_iff.mp (by omega)
  have hends : ∃ n, (afterReads t n r).stream.rest = [] := ⟨_, hall⟩
  have hspec := Nat.find_spec hends
  refine ⟨Nat.find hends, Nat.find_min' hends hall, fun n => ?_⟩
  rw [read_eq_none_iff]
  constructor
  · intro hnil
    exact Nat.find_min' hends hnil
  · intro hle
    obtain ⟨more, rfl⟩ := Nat.exists_eq_add_of_le hle
    rw [afterReads_add, afterReads_of_nil hspec]
    exact hspec

end RecordStream

/--
After any number of reads into any bytes, the stream stands at a position within them, no further
back than before, and what is left is what stands behind that position. A read that does not tell of
the end moves on, by the form of a length and as many bytes as it declares if it comes to a message.
No more reads than there are bytes come to anything before one tells of the end, and all after that
one tell of it too. The count is that of the reads that came to a message.
-/
theorem reads_progress (data : List UInt8) (medium : Medium) (t : MessageType) :
    let after := fun n => RecordStream.afterReads t n ⟨⟨data, medium⟩, 0⟩
    let position := fun n => (after n).position data
    (∀ n, position n ≤ position (n + 1) ∧ position n ≤ data.length ∧
        (after n).stream.rest = data.drop (position n)) ∧
      (∀ n, ((after n).read t).1 ≠ .ok none → position n < position (n + 1)) ∧
      (∀ n m, ((after n).read t).1 = .ok (some m) →
        ∃ form rest, (after n).stream.rest = form ++ rest ∧ Varint.IsForm form ∧
          Varint.value form ≤ rest.length ∧
          position (n + 1) = position n + form.length + Varint.value form) ∧
      (∃ k ≤ data.length, ∀ n, ((after n).read t).1 = .ok none ↔ k ≤ n) ∧
      ∀ n, (after n).taken = (List.range n).countP fun i => (after i).yields t := by
  intro after position
  have hsucc : ∀ n, after (n + 1) = ((after n).read t).2 := fun n =>
    RecordStream.afterReads_succ t n _
  have hsuffix : ∀ n, (after n).stream.rest <:+ data := fun n =>
    RecordStream.rest_afterReads_suffix _ t n
  have hposition : ∀ n, position n + (after n).stream.rest.length = data.length := fun n =>
    Nat.sub_add_cancel (hsuffix n).length_le
  refine ⟨fun n => ?_, fun n hread => ?_, fun n m hread => ?_,
    RecordStream.exists_first_end ⟨⟨data, medium⟩, 0⟩ t, fun n => ?_⟩
  · have hle := ((after n).rest_read_suffix t).length_le
    have hhere := hposition n
    have hnext := hposition (n + 1)
    rw [hsucc] at hnext
    exact ⟨by omega, by omega, List.suffix_iff_eq_drop.mp (hsuffix n)⟩
  · have hne : (after n).stream.rest ≠ [] := mt (RecordStream.read_eq_none_iff _ t).mpr hread
    have hlt := RecordStream.length_rest_read_lt (t := t) hne
    have hhere := hposition n
    have hnext := hposition (n + 1)
    rw [hsucc] at hnext
    omega
  · obtain ⟨form, rest, hrest, hform, hle, hleft⟩ := RecordStream.rest_read_of_message hread
    have hhere := hposition n
    have hnext := hposition (n + 1)
    rw [hsucc, hleft, List.length_drop] at hnext
    rw [hrest, List.length_append] at hhere
    exact ⟨form, rest, hrest, hform, hle, by omega⟩
  · have htaken := RecordStream.taken_afterReads ⟨⟨data, medium⟩, 0⟩ t n
    rw [Nat.zero_add] at htaken
    exact htaken

end

attribute [local instance] Memory.addressable

/-- A payload that is no message, an entry without content, and a payload that is cut short. -/
def brokenData : List UInt8 := [0x01, 0xff, 0x00, 0x05, 0x61]

/-- The stream over these bytes after so many reads. -/
def brokenStream (n : Nat) : RecordStream :=
  RecordStream.afterReads .logEntry n ⟨⟨brokenData, .memory⟩, 0⟩

theorem reads_progress_broken :
    let position := fun n => (brokenStream n).position brokenData
    ((brokenStream 0).read .logEntry).1 ≠ .ok none ∧ position 0 < position 1 ∧
      ((brokenStream 1).read .logEntry).1 = .ok (some {}) ∧
      (∃ form rest, (brokenStream 1).stream.rest = form ++ rest ∧ Varint.IsForm form ∧
        Varint.value form ≤ rest.length ∧
        position 2 = position 1 + form.length + Varint.value form) ∧
      (∃ k ≤ 5, ∀ n, ((brokenStream n).read .logEntry).1 = .ok none ↔ k ≤ n) ∧
      (brokenStream 3).taken = 1 := by
  intro position
  obtain ⟨-, hmoves, hmessage, hend, htaken⟩ := reads_progress brokenData .memory .logEntry
  have hfault : ((brokenStream 0).read .logEntry).1 =
      .error (.record (.invalid 0 ⟨"remote_logging.LogEntry", .corrupt⟩)) := by
        with_unfolding_all rfl
  have hempty : ((brokenStream 1).read .logEntry).1 = .ok (some {}) := by with_unfolding_all rfl
  have hshort : ((brokenStream 2).read .logEntry).1 = .error (.record (.short 1 5 1)) := by
    with_unfolding_all rfl
  have hne : ((brokenStream 0).read .logEntry).1 ≠ .ok none := by simp [hfault]
  have hyields : (brokenStream 0).yields .logEntry = false ∧
      (brokenStream 1).yields .logEntry = true ∧ (brokenStream 2).yields .logEntry = false := by
    simp only [RecordStream.yields, hfault, hempty, hshort]
    exact ⟨rfl, rfl, rfl⟩
  have hcount : (List.range 3).countP (fun i => (brokenStream i).yields .logEntry) = 1 := by
    simp [List.range_succ, hyields]
  exact ⟨hne, hmoves 0 hne, hempty, hmessage 1 {} hempty, hend, (htaken 3).trans hcount⟩

end CallTrace
