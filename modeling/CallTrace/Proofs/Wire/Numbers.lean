import Mathlib.Algebra.Ring.Nat
import CallTrace.Wire.Varint

/-!
# Numbers and their forms

Bytes form a number when all of them but the last have their high bit set. What a scan finds at
the front of its input is a form of a number, too many bytes with the high bit, or such bytes up to
the end of the input. A number may have many forms. Of any given length it has at most one, and the
shortest of them all is the one that is written.

A scan that finds a number looks at nothing behind the number, and what is left of the form of a
number when its last bytes are cut off is a number cut short.
-/

namespace CallTrace.Varint

theorem encode_of_lt {n : Nat} (h : n < 128) : encode n = [UInt8.ofNat n] := by
  rw [encode, if_pos h]

theorem encode_of_le {n : Nat} (h : 128 ≤ n) :
    encode n = UInt8.ofNat (128 + n % 128) :: encode (n / 128) := by
  rw [encode, if_neg (Nat.not_lt.mpr h)]

/-- Bytes that form a number: the high bit is set in all of them but the last. -/
inductive IsForm : List UInt8 → Prop
  /-- The last group. -/
  | last {b : UInt8} (hb : b.toNat < 128) : IsForm [b]
  /-- A group with others behind it. -/
  | cons {b : UInt8} {form : List UInt8} (hb : 128 ≤ b.toNat) (h : IsForm form) : IsForm (b :: form)

/-- The number that bytes form, seven bits of each, the lowest first. -/
def value : List UInt8 → Nat
  | [] => 0
  | b :: form => b.toNat % 128 + 128 * value form

variable {limit n : Nat} {bytes form form' front rest : List UInt8}

theorem IsForm.length_pos (h : IsForm form) : 0 < form.length := by
  cases h with
  | last _ => exact Nat.zero_lt_one
  | cons _ _ => exact Nat.zero_lt_succ _

/-- Seven bits for each byte are enough for the number. -/
theorem value_lt (form : List UInt8) : value form < 128 ^ form.length := by
  induction form with
  | nil => exact Nat.zero_lt_one
  | cons b form ih =>
    have hb : b.toNat % 128 < 128 := Nat.mod_lt _ (by omega)
    rw [value, List.length_cons, Nat.pow_succ]
    omega

/-! ### What a scan finds -/

/-- A form that is short enough is read, whatever stands behind it. -/
theorem scan_of_form (h : IsForm form) (hl : form.length ≤ limit) (rest : List UInt8) :
    scan limit (form ++ rest) = .value (value form) rest := by
  induction h generalizing limit with
  | @last b hb =>
    have hmod : b.toNat % 128 = b.toNat := Nat.mod_eq_of_lt hb
    cases limit with
    | zero => exact absurd hl (by simp)
    | succ limit =>
      rw [List.singleton_append, scan_cons, if_pos hb, value, value, hmod]
      rfl
  | @cons b form hb h ih =>
    have hlt := b.toNat_lt
    have hmod : b.toNat - 128 = b.toNat % 128 := by omega
    cases limit with
    | zero => exact absurd hl (by simp)
    | succ limit =>
      have hshort : form.length ≤ limit := by simpa using hl
      rw [List.cons_append, scan_cons, if_neg (by omega), ih hshort, Scan.below, value, hmod]

/-- Where the high bit is set up to the end, the input ends inside a number. -/
theorem scan_of_all_high (h : ∀ b ∈ bytes, 128 ≤ b.toNat) (hl : bytes.length < limit) :
    scan limit bytes = .truncated := by
  induction bytes generalizing limit with
  | nil =>
    cases limit with
    | zero => exact absurd hl (by simp)
    | succ limit => rfl
  | cons b bytes ih =>
    have hb : 128 ≤ b.toNat := h b List.mem_cons_self
    have hbytes : ∀ c ∈ bytes, 128 ≤ c.toNat := fun c hc => h c (List.mem_cons_of_mem b hc)
    cases limit with
    | zero => exact absurd hl (by simp)
    | succ limit =>
      have hshort : bytes.length < limit := by simpa using hl
      rw [scan_cons, if_neg (by omega), ih hbytes hshort]
      rfl

/-- Where the high bit is set in all the bytes that may be read, the number goes on for too long. -/
theorem scan_of_front_high (h : ∀ b ∈ front, 128 ≤ b.toNat) (rest : List UInt8) :
    scan front.length (front ++ rest) = .overlong rest := by
  induction front with
  | nil => exact scan_zero rest
  | cons b front ih =>
    have hb : 128 ≤ b.toNat := h b List.mem_cons_self
    have hfront : ∀ c ∈ front, 128 ≤ c.toNat := fun c hc => h c (List.mem_cons_of_mem b hc)
    rw [List.length_cons, List.cons_append, scan_cons, if_neg (by omega), ih hfront]
    rfl

/-- One of the three stands at the front of any input. -/
theorem front_cases (limit : Nat) (bytes : List UInt8) :
    (∃ form rest, bytes = form ++ rest ∧ IsForm form ∧ form.length ≤ limit) ∨
      (bytes.length < limit ∧ ∀ b ∈ bytes, 128 ≤ b.toNat) ∨
      (limit ≤ bytes.length ∧ ∀ b ∈ bytes.take limit, 128 ≤ b.toNat) := by
  induction bytes generalizing limit with
  | nil =>
    cases limit with
    | zero => exact .inr (.inr ⟨Nat.le_refl 0, by simp⟩)
    | succ limit => exact .inr (.inl ⟨Nat.zero_lt_succ limit, by simp⟩)
  | cons b bytes ih =>
    cases limit with
    | zero => exact .inr (.inr ⟨Nat.zero_le _, by simp⟩)
    | succ limit =>
      rcases Nat.lt_or_ge b.toNat 128 with hb | hb
      · exact .inl ⟨[b], bytes, rfl, .last hb, by simp⟩
      · rcases ih limit with ⟨form, rest, hbytes, hform, hl⟩ | ⟨hl, hhigh⟩ | ⟨hl, hhigh⟩
        · have hlength : (b :: form).length ≤ limit + 1 := by
            rw [List.length_cons]
            omega
          exact .inl ⟨b :: form, rest, by rw [hbytes, List.cons_append], .cons hb hform, hlength⟩
        · have hlength : (b :: bytes).length < limit + 1 := by
            rw [List.length_cons]
            omega
          exact .inr (.inl ⟨hlength, List.forall_mem_cons.mpr ⟨hb, hhigh⟩⟩)
        · have hlength : limit + 1 ≤ (b :: bytes).length := by
            rw [List.length_cons]
            omega
          refine .inr (.inr ⟨hlength, ?_⟩)
          rw [List.take_succ_cons]
          exact List.forall_mem_cons.mpr ⟨hb, hhigh⟩

theorem scan_of_take_high (hl : limit ≤ bytes.length) (h : ∀ b ∈ bytes.take limit, 128 ≤ b.toNat) :
    scan limit bytes = .overlong (bytes.drop limit) := by
  have hscan := scan_of_front_high h (bytes.drop limit)
  rwa [List.take_append_drop, List.length_take_of_le hl] at hscan

/-- A number is scanned just where a form of it stands in front. -/
theorem scan_eq_value_iff :
    scan limit bytes = .value n rest ↔
      ∃ form, bytes = form ++ rest ∧ IsForm form ∧ form.length ≤ limit ∧ value form = n := by
  constructor
  · intro h
    rcases front_cases limit bytes with
      ⟨form, behind, hbytes, hform, hl⟩ | ⟨hl, hhigh⟩ | ⟨hl, hhigh⟩
    · have hscan := scan_of_form hform hl behind
      rw [← hbytes, h] at hscan
      cases hscan
      exact ⟨form, hbytes, hform, hl, rfl⟩
    · rw [scan_of_all_high hhigh hl] at h
      cases h
    · rw [scan_of_take_high hl hhigh] at h
      cases h
  · intro ⟨form, hbytes, hform, hl, hn⟩
    rw [hbytes, scan_of_form hform hl, hn]

/-! ### The form that is written -/

/-- What is written of a number is a form, and the number is the one that it forms. -/
theorem encode_isForm (n : Nat) : IsForm (encode n) ∧ value (encode n) = n := by
  induction n using Nat.strong_induction_on with
  | _ n ih =>
    rcases Nat.lt_or_ge n 128 with hn | hn
    · have hb : (UInt8.ofNat n).toNat = n := UInt8.toNat_ofNat_of_lt' (show _ < 256 by omega)
      rw [encode_of_lt hn, value, value, hb]
      exact ⟨.last (by omega), by omega⟩
    · have hb : (UInt8.ofNat (128 + n % 128)).toNat = 128 + n % 128 :=
        UInt8.toNat_ofNat_of_lt' (show _ < 256 by omega)
      have hform := ih (n / 128) (by omega)
      rw [encode_of_le hn, value, hb, hform.2]
      exact ⟨.cons (by omega) hform.1, by omega⟩

/-- A number takes no more bytes than it has groups of seven bits. -/
theorem length_encode_le (h : n < 128 ^ (limit + 1)) : (encode n).length ≤ limit + 1 := by
  induction limit generalizing n with
  | zero =>
    have hn : n < 128 := by omega
    simp [encode_of_lt hn]
  | succ limit ih =>
    rcases Nat.lt_or_ge n 128 with hn | hn
    · simp [encode_of_lt hn]
    · have hq : n / 128 < 128 ^ (limit + 1) := by
        rw [Nat.div_lt_iff_lt_mul (by omega), ← Nat.pow_succ]
        exact h
      rw [encode_of_le hn, List.length_cons]
      exact Nat.add_le_add_right (ih hq) 1

/-- The number of bytes that are written of a number. -/
theorem length_encode_le_iff : (encode n).length ≤ limit + 1 ↔ n < 128 ^ (limit + 1) := by
  constructor
  · intro hl
    have hlt := value_lt (encode n)
    have hpow : 128 ^ (encode n).length ≤ 128 ^ (limit + 1) :=
      Nat.pow_le_pow_right (by omega) hl
    rw [(encode_isForm n).2] at hlt
    omega
  · exact length_encode_le

/-- No form of a number is shorter than the one that is written. -/
theorem IsForm.length_encode_value_le (h : IsForm form) :
    (encode (value form)).length ≤ form.length := by
  have hlt := value_lt form
  have hsucc : form.length - 1 + 1 = form.length := Nat.succ_pred_eq_of_pos h.length_pos
  rw [← hsucc] at hlt ⊢
  exact length_encode_le hlt

/-- Of any given length a number has no more than one form. -/
theorem IsForm.eq_of_length (h : IsForm form) (h' : IsForm form')
    (hl : form.length = form'.length) (hv : value form = value form') : form = form' := by
  induction h generalizing form' with
  | @last b hb =>
    cases h' with
    | @last b' hb' =>
      have hsame : b.toNat = b'.toNat := by
        simp only [value] at hv
        omega
      rw [UInt8.toNat_inj.mp hsame]
    | @cons b' form' hb' h' =>
      have hpos := h'.length_pos
      rw [List.length_singleton, List.length_cons] at hl
      omega
  | @cons b form hb h ih =>
    cases h' with
    | @last b' hb' =>
      have hpos := h.length_pos
      rw [List.length_singleton, List.length_cons] at hl
      omega
    | @cons b' form' hb' h' =>
      have hlt := b.toNat_lt
      have hlt' := b'.toNat_lt
      simp only [value] at hv
      have hsame : b.toNat = b'.toNat := by omega
      have hrest : form = form' := ih h' (by simpa using hl) (by omega)
      rw [UInt8.toNat_inj.mp hsame, hrest]

/-- A form is the one that is written just where it is as short as that. -/
theorem IsForm.length_eq_iff (h : IsForm form) :
    (encode (value form)).length = form.length ↔ encode (value form) = form := by
  have hform := encode_isForm (value form)
  constructor
  · intro hl
    exact hform.1.eq_of_length h hl hform.2
  · intro he
    exact congrArg List.length he

/-- All bytes of a form but the last have their high bit set. -/
theorem IsForm.high_of_mem_take (h : IsForm form) {k : Nat} (hk : k < form.length) :
    ∀ b ∈ form.take k, 128 ≤ b.toNat := by
  induction h generalizing k with
  | last hb =>
    have hzero : k = 0 := by simpa using hk
    simp [hzero]
  | @cons b form hb h ih =>
    cases k with
    | zero => simp
    | succ k =>
      have hshort : k < form.length := by simpa using hk
      rw [List.take_succ_cons]
      exact List.forall_mem_cons.mpr ⟨hb, ih hshort⟩

/-- A number with more groups of seven bits takes more bytes. -/
theorem lt_length_encode (h : 128 ^ (limit + 1) ≤ n) : limit + 1 < (encode n).length := by
  have hnot := mt length_encode_le_iff.mp (Nat.not_lt.mpr h)
  omega

/-- Less than all of the bytes that are written of a number have their high bit set. -/
theorem high_of_mem_take_encode (h : limit < (encode n).length) (rest : List UInt8) :
    ∀ b ∈ (encode n ++ rest).take limit, 128 ≤ b.toNat := by
  rw [List.take_append_of_le_length (Nat.le_of_lt h)]
  exact (encode_isForm n).1.high_of_mem_take h

/-! ### What stands behind a number -/

/-- The shortest form of a number is read back where it takes no more bytes than may be read. -/
theorem scan_encode (h : n < 128 ^ (limit + 1)) (rest : List UInt8) :
    scan (limit + 1) (encode n ++ rest) = .value n rest := by
  have hform := encode_isForm n
  rw [scan_of_form hform.1 (length_encode_le h), hform.2]

theorem read?_encode (limit : Nat) (h : n < 128 ^ (limit + 1)) (rest : List UInt8) :
    read? (limit + 1) (encode n ++ rest) = some (n, rest) := by
  rw [read?, scan_encode h]

/-- A scanned number has a form at the front of the input, and is read off that form anywhere. -/
theorem exists_form_of_scan (h : scan limit bytes = .value n rest) :
    ∃ form, bytes = form ++ rest ∧ ∀ rest', scan limit (form ++ rest') = .value n rest' := by
  obtain ⟨form, hbytes, hform, hl, hn⟩ := scan_eq_value_iff.mp h
  refine ⟨form, hbytes, fun rest' => ?_⟩
  rw [scan_of_form hform hl, hn]

/-- A number that is cut short is no number. -/
theorem scan_of_cut {cut : List UInt8} (h : scan limit form = .value n []) (hc : cut <+: form)
    (hne : cut ≠ form) : scan limit cut = .truncated := by
  obtain ⟨whole, hwhole, hform, hl, -⟩ := scan_eq_value_iff.mp h
  rw [List.append_nil] at hwhole
  have htake : cut = whole.take cut.length := hwhole ▸ List.prefix_iff_eq_take.mp hc
  have hshort : cut.length < whole.length := by
    have hle := hwhole ▸ hc.length_le
    have hlt : cut.length ≠ whole.length := fun he => hne (hc.eq_of_length (hwhole ▸ he))
    omega
  have hhigh := hform.high_of_mem_take hshort
  rw [← htake] at hhigh
  exact scan_of_all_high hhigh (by omega)

end CallTrace.Varint
