import CallTrace.Proofs.Wire.Numbers
import CallTrace.Record.Delimited

/-!
# Lengths of records

A length is a number of at most ten bytes. The end of the stream, a stream that ends inside a
length, a length that goes on for too long and a length are told apart by where the first byte
without the high bit stands. What is written as the length of less than 2^70 bytes is read back, and
no bytes that are read as that length are fewer.
-/

namespace CallTrace

namespace ByteStream

variable {s : ByteStream} {form rest : List UInt8}

theorem readLength_of_nil (h : s.rest = []) : s.readLength = (.ok none, s) := by
  rw [readLength, h]
  rfl

/-- A form of a number that is short enough is read, and what stands behind it is left. -/
theorem readLength_of_form (hrest : s.rest = form ++ rest) (hform : Varint.IsForm form)
    (hl : form.length ≤ lengthLimit) :
    s.readLength = (.ok (some (Varint.value form)), { s with rest := rest }) := by
  have hpos := hform.length_pos
  have hne : form ++ rest ≠ [] :=
    List.append_ne_nil_of_left_ne_nil (List.ne_nil_of_length_pos hpos) rest
  rw [readLength, hrest, if_neg (by simpa using hne), Varint.scan_of_form hform hl]

theorem readLength_of_all_high (hne : s.rest ≠ []) (hl : s.rest.length < lengthLimit)
    (h : ∀ b ∈ s.rest, 128 ≤ b.toNat) :
    s.readLength = (.error .truncatedLength, { s with rest := [] }) := by
  rw [readLength, if_neg (by simpa using hne), Varint.scan_of_all_high h hl]

theorem readLength_of_take_high (hl : lengthLimit ≤ s.rest.length)
    (h : ∀ b ∈ s.rest.take lengthLimit, 128 ≤ b.toNat) :
    s.readLength = (.error .overlongLength, { s with rest := s.rest.drop lengthLimit }) := by
  have hpos : 0 < lengthLimit := by decide
  have hne : s.rest ≠ [] := List.ne_nil_of_length_pos (by omega)
  rw [readLength, if_neg (by simpa using hne), Varint.scan_of_take_high hl h]

/-- What is read as a length, and what it leaves, by what stands at the front of the stream. -/
inductive LengthRead (s : ByteStream) : Except RecordError (Option Nat) → ByteStream → Prop
  /-- No byte is left. -/
  | ends (h : s.rest = []) : LengthRead s (.ok none) s
  /-- Less bytes are left than a length may take, and all have their high bit set. -/
  | truncated (hne : s.rest ≠ []) (hl : s.rest.length < lengthLimit)
    (h : ∀ b ∈ s.rest, 128 ≤ b.toNat) :
    LengthRead s (.error .truncatedLength) { s with rest := [] }
  /-- As many bytes as a length may take have their high bit set. -/
  | overlong (hl : lengthLimit ≤ s.rest.length)
    (h : ∀ b ∈ s.rest.take lengthLimit, 128 ≤ b.toNat) :
    LengthRead s (.error .overlongLength) { s with rest := s.rest.drop lengthLimit }
  /-- A form of a number is short enough. -/
  | number {form rest : List UInt8} (hrest : s.rest = form ++ rest) (hform : Varint.IsForm form)
    (hl : form.length ≤ lengthLimit) :
    LengthRead s (.ok (some (Varint.value form))) { s with rest := rest }

theorem lengthRead (s : ByteStream) : LengthRead s s.readLength.1 s.readLength.2 := by
  rcases Varint.front_cases lengthLimit s.rest with
    ⟨form, rest, hrest, hform, hl⟩ | ⟨hl, hhigh⟩ | ⟨hl, hhigh⟩
  · rw [readLength_of_form hrest hform hl]
    exact .number hrest hform hl
  · by_cases hne : s.rest = []
    · rw [readLength_of_nil hne]
      exact .ends hne
    · rw [readLength_of_all_high hne hl hhigh]
      exact .truncated hne hl hhigh
  · rw [readLength_of_take_high hl hhigh]
    exact .overlong hl hhigh

theorem rest_of_ends (h : s.readLength.1 = .ok none) : s.rest = [] ∧ s.readLength.2 = s := by
  have hread := s.lengthRead
  rw [h] at hread
  generalize s.readLength.2 = left at hread
  cases hread with
  | ends hnil => exact ⟨hnil, rfl⟩

theorem rest_of_truncated (h : s.readLength.1 = .error .truncatedLength) :
    (s.rest ≠ [] ∧ s.rest.length < lengthLimit ∧ ∀ b ∈ s.rest, 128 ≤ b.toNat) ∧
      s.readLength.2.rest = [] := by
  have hread := s.lengthRead
  rw [h] at hread
  generalize s.readLength.2 = left at hread ⊢
  cases hread with
  | truncated hne hl hhigh => exact ⟨⟨hne, hl, hhigh⟩, rfl⟩

theorem rest_of_overlong (h : s.readLength.1 = .error .overlongLength) :
    (lengthLimit ≤ s.rest.length ∧ ∀ b ∈ s.rest.take lengthLimit, 128 ≤ b.toNat) ∧
      s.readLength.2.rest = s.rest.drop lengthLimit := by
  have hread := s.lengthRead
  rw [h] at hread
  generalize s.readLength.2 = left at hread ⊢
  cases hread with
  | overlong hl hhigh => exact ⟨⟨hl, hhigh⟩, rfl⟩

/-- What is read neither as the end nor as a fault begins with a form of the number it is read
as. -/
theorem rest_of_otherwise (hends : s.readLength.1 ≠ .ok none)
    (htruncated : s.readLength.1 ≠ .error .truncatedLength)
    (hoverlong : s.readLength.1 ≠ .error .overlongLength) :
    ∃ form, s.rest = form ++ s.readLength.2.rest ∧ Varint.IsForm form ∧
      form.length ≤ lengthLimit ∧ s.readLength.1 = .ok (some (Varint.value form)) := by
  have hread := s.lengthRead
  generalize s.readLength.1 = outcome at hread hends htruncated hoverlong ⊢
  generalize s.readLength.2 = left at hread ⊢
  cases hread with
  | ends _ => exact absurd rfl hends
  | truncated _ _ _ => exact absurd rfl htruncated
  | overlong _ _ => exact absurd rfl hoverlong
  | @number form rest hrest hform hl => exact ⟨form, hrest, hform, hl, rfl⟩

/-- How the bytes of a stream are told apart by what is read of them as a length. -/
structure TellsLength (s : ByteStream) : Prop where
  /-- There is no length just where no byte is left. -/
  ends_iff : s.readLength.1 = .ok none ↔ s.rest = []
  /-- Then nothing is read. -/
  ends_left : s.readLength.1 = .ok none → s.readLength.2 = s
  /-- The stream ends inside a length just where it has one to nine bytes, all with the high bit. -/
  truncated_iff : s.readLength.1 = .error .truncatedLength ↔
    (1 ≤ s.rest.length ∧ s.rest.length ≤ 9) ∧ ∀ b ∈ s.rest, 128 ≤ b.toNat
  /-- Then all of them are read. -/
  truncated_left : s.readLength.1 = .error .truncatedLength → s.readLength.2.rest = []
  /-- A length goes on for too long just where the first ten bytes have the high bit. -/
  overlong_iff : s.readLength.1 = .error .overlongLength ↔
    10 ≤ s.rest.length ∧ ∀ b ∈ s.rest.take 10, 128 ≤ b.toNat
  /-- Then these ten are read. -/
  overlong_left : s.readLength.1 = .error .overlongLength → s.readLength.2.rest = s.rest.drop 10
  /--
  All else begins with a form of a number, which is read as that number. The form is no shorter
  than the one that is written, and as short as that just where it is the one that is written.
  -/
  otherwise : s.readLength.1 ≠ .ok none → s.readLength.1 ≠ .error .truncatedLength →
    s.readLength.1 ≠ .error .overlongLength →
    ∃ form, s.rest = form ++ s.readLength.2.rest ∧ Varint.IsForm form ∧ form.length ≤ 10 ∧
      s.readLength.1 = .ok (some (Varint.value form)) ∧
      Varint.value form < 2 ^ (7 * form.length) ∧
      (Varint.encode (Varint.value form)).length ≤ form.length ∧
      ((Varint.encode (Varint.value form)).length = form.length ↔
        Varint.encode (Varint.value form) = form)

theorem tellsLength (s : ByteStream) : s.TellsLength where
  ends_iff := ⟨fun h => (rest_of_ends h).1, fun h => congrArg Prod.fst (readLength_of_nil h)⟩
  ends_left h := (rest_of_ends h).2
  truncated_iff := by
    constructor
    · intro h
      obtain ⟨hne, hl, hhigh⟩ := (rest_of_truncated h).1
      have hpos := List.length_pos_iff.mpr hne
      exact ⟨⟨hpos, Nat.le_of_lt_succ hl⟩, hhigh⟩
    · intro ⟨⟨hpos, hl⟩, hhigh⟩
      have hne := List.ne_nil_of_length_pos hpos
      exact congrArg Prod.fst (readLength_of_all_high hne (Nat.lt_succ_of_le hl) hhigh)
  truncated_left h := (rest_of_truncated h).2
  overlong_iff :=
    ⟨fun h => (rest_of_overlong h).1,
      fun ⟨hl, hhigh⟩ => congrArg Prod.fst (readLength_of_take_high hl hhigh)⟩
  overlong_left h := (rest_of_overlong h).2
  otherwise := by
    intro hends htruncated hoverlong
    obtain ⟨form, hrest, hform, hl, hread⟩ := rest_of_otherwise hends htruncated hoverlong
    have hlt : Varint.value form < 2 ^ (7 * form.length) := by
      rw [Nat.pow_mul]
      exact Varint.value_lt form
    exact ⟨form, hrest, hform, hl, hread, hlt, hform.length_encode_value_le, hform.length_eq_iff⟩

/-- No bytes that are read as a number are fewer than those that are written of it. -/
theorem length_encode_le_of_readLength {n : Nat} (h : s.readLength.1 = .ok (some n)) :
    (Varint.encode n).length ≤ s.rest.length := by
  have hread := s.lengthRead
  rw [h] at hread
  generalize s.readLength.2 = left at hread
  cases hread with
  | number hrest hform hl =>
    have hle := hform.length_encode_value_le
    rw [hrest, List.length_append]
    omega

end ByteStream

/--
What is written as a length below 2^70 is read back, whatever stands behind it, and of what is
written as a greater one ten bytes are read, which are too many. Any bytes are told apart by what is
read of them, and fewer bytes than are written of a number are never read as that number.
-/
theorem readLength_of_bytes (medium : Medium) :
    (∀ n rest, n < 2 ^ 70 → ByteStream.readLength ⟨Varint.encode n ++ rest, medium⟩ =
        (.ok (some n), ⟨rest, medium⟩)) ∧
      (∀ n rest, 2 ^ 70 ≤ n → 10 < (Varint.encode n).length ∧
        ByteStream.readLength ⟨Varint.encode n ++ rest, medium⟩ =
          (.error .overlongLength, ⟨(Varint.encode n ++ rest).drop 10, medium⟩)) ∧
      (∀ bytes, ByteStream.TellsLength ⟨bytes, medium⟩) ∧
      ∀ n bytes, bytes.length < (Varint.encode n).length →
        (ByteStream.readLength ⟨bytes, medium⟩).1 ≠ .ok (some n) := by
  have hbound : 2 ^ 70 = 128 ^ (9 + 1) := rfl
  refine ⟨fun n rest hn => ?_, fun n rest hn => ?_, fun bytes => ByteStream.tellsLength _,
    fun n bytes hl h => ?_⟩
  · have hform := Varint.encode_isForm n
    have hl : (Varint.encode n).length ≤ lengthLimit := Varint.length_encode_le (hbound ▸ hn)
    rw [ByteStream.readLength_of_form rfl hform.1 hl, hform.2]
  · have hlong : 9 + 1 < (Varint.encode n).length := Varint.lt_length_encode (hbound ▸ hn)
    have hl : lengthLimit ≤ (Varint.encode n ++ rest).length := by
      rw [List.length_append]
      exact Nat.le_trans (Nat.le_of_lt hlong) (Nat.le_add_right _ _)
    have hhigh := Varint.high_of_mem_take_encode hlong rest
    exact ⟨hlong, ByteStream.readLength_of_take_high hl hhigh⟩
  · have hle := ByteStream.length_encode_le_of_readLength h
    exact absurd hl (Nat.not_lt.mpr hle)

/--
The two bytes of three hundred are read and the byte behind them is left. A number of eleven bytes
goes on for too long. Zero is read off two bytes though one is enough, and three hundred is not read
off one byte.
-/
theorem readLength_of_bytes_groups :
    300 < 2 ^ 70 ∧
      ByteStream.readLength ⟨Varint.encode 300 ++ [0x07], .memory⟩ =
        (.ok (some 300), ⟨[0x07], .memory⟩) ∧
      2 ^ 70 ≤ 2 ^ 70 + 5 ∧
      (ByteStream.readLength ⟨Varint.encode (2 ^ 70 + 5), .memory⟩).1 = .error .overlongLength ∧
      ByteStream.readLength ⟨[0x80, 0x00], .memory⟩ = (.ok (some 0), ⟨[], .memory⟩) ∧
      (Varint.encode 0).length < [0x80, 0x00].length ∧
      ByteStream.TellsLength ⟨[0x80, 0x00], .memory⟩ ∧
      [0xac].length < (Varint.encode 300).length ∧
      (ByteStream.readLength ⟨[0xac], .memory⟩).1 ≠ .ok (some 300) := by
  obtain ⟨hshort, hlong, htells, hfewer⟩ := readLength_of_bytes .memory
  have hread := hshort 300 [0x07] (by decide)
  have hoverlong := (hlong (2 ^ 70 + 5) [] (by decide)).2
  rw [List.append_nil] at hoverlong
  have hlength : [0xac].length < (Varint.encode 300).length := by decide +kernel
  exact ⟨by decide, hread, by decide, congrArg Prod.fst hoverlong, rfl, by decide +kernel, htells _,
    hlength, hfewer 300 [0xac] hlength⟩

end CallTrace
