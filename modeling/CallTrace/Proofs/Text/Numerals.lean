import CallTrace.Text.Numeral

/-!
# Decimal forms

The decimal form of a number is a run of digits with nothing around them and nothing between them.
Read as digits of any script, with blanks and underscores allowed for, it is the number again.
-/

namespace CallTrace.Text

/-- The value of one of the ten common digits. -/
def digitValue (c : Char) : Nat := c.toNat - 48

theorem toNat_of_isDigit {c : Char} (h : c.isDigit = true) : 48 ≤ c.toNat ∧ c.toNat ≤ 57 := by
  simp only [Char.isDigit, Bool.and_eq_true, decide_eq_true_eq, UInt32.le_iff_toNat_le] at h
  exact h

theorem isBlank_of_isDigit {c : Char} (h : c.isDigit = true) : isBlank c = false := by
  have hall : ∀ n < 58, 48 ≤ n → blanks.contains n = false := by decide
  obtain ⟨hlow, hhigh⟩ := toNat_of_isDigit h
  exact hall _ (by omega) hlow

theorem decimalDigit?_of_isDigit {c : Char} (h : c.isDigit = true) :
    decimalDigit? c = some (digitValue c) := by
  obtain ⟨hlow, hhigh⟩ := toNat_of_isDigit h
  have hfirst : (zeros.find? fun z => z ≤ c.toNat && c.toNat < z + 10) = some 0x30 := by
    rw [zeros, List.find?_cons_of_pos]
    simp only [Bool.and_eq_true, decide_eq_true_eq]
    omega
  rw [decimalDigit?, hfirst]
  rfl

/-- A run of digits has no blanks to be taken away. -/
theorem trim_of_isDigit {cs : List Char} (h : ∀ c ∈ cs, c.isDigit = true) : trim cs = cs := by
  have hkeep : ∀ cs : List Char, (∀ c ∈ cs, c.isDigit = true) → cs.dropWhile isBlank = cs := by
    intro cs hcs
    cases cs with
    | nil => rfl
    | cons c cs =>
      rw [List.dropWhile_cons_of_neg]
      rw [isBlank_of_isDigit (hcs c List.mem_cons_self)]
      exact Bool.false_ne_true
  rw [trim, hkeep cs h, hkeep cs.reverse fun c hc => h c (List.mem_reverse.mp hc),
    List.reverse_reverse]

/-- A run of digits has no sign. -/
theorem splitSign_of_isDigit {cs : List Char} (h : ∀ c ∈ cs, c.isDigit = true) :
    splitSign cs = (false, cs) := by
  unfold splitSign
  split
  · exact absurd (h '-' List.mem_cons_self) (by decide)
  · exact absurd (h '+' List.mem_cons_self) (by decide)
  · rfl

/-- A run of digits is read digit by digit. -/
theorem digits?_of_isDigit {cs : List Char} (hne : cs ≠ []) (h : ∀ c ∈ cs, c.isDigit = true) :
    digits? decimalDigit? cs = some (cs.map digitValue) := by
  fun_induction digits? decimalDigit? cs with
  | case1 => contradiction
  | case2 c =>
    rw [decimalDigit?_of_isDigit (h c List.mem_cons_self)]
    rfl
  | case3 c cs ih => exact absurd (h '_' (by simp)) (by decide)
  | case4 c cs hone hunderscore ih =>
    have hrest := ih hone fun c' hc' => h c' (List.mem_cons_of_mem c hc')
    rw [decimalDigit?_of_isDigit (h c List.mem_cons_self), hrest]
    rfl

/-- The digits of a number form it. -/
theorem ofDigits_toDigits (n : Nat) : ofDigits ((Nat.toDigits 10 n).map digitValue) = n := by
  rw [ofDigits, List.foldl_map]
  exact Nat.ofDigitChars_ten_toDigits

/-- The decimal form of a number has digits only. -/
theorem not_mem_repr {c : Char} (hc : c.isDigit = false) (n : Nat) : c ∉ n.repr.toList := by
  intro h
  rw [Nat.toList_repr] at h
  have hdigit := Nat.isDigit_of_mem_toDigits (by decide) (by decide) h
  exact absurd hdigit (by rw [hc]; decide)

/-- A number is known by its decimal form. -/
theorem eq_of_toList_repr {m n : Nat} (h : m.repr.toList = n.repr.toList) : m = n := by
  rw [Nat.toList_repr, Nat.toList_repr] at h
  calc
    m = ofDigits ((Nat.toDigits 10 m).map digitValue) := (ofDigits_toDigits m).symm
    _ = ofDigits ((Nat.toDigits 10 n).map digitValue) := by rw [h]
    _ = n := ofDigits_toDigits n

end CallTrace.Text
