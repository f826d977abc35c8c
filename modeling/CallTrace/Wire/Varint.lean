/-!
# Numbers in base 128

A number is written as groups of seven bits, the lowest group first. Every
byte but the last has its high bit set. `encode` writes the shortest form of
any natural number, and `scan` reads a form of at most a given number of
bytes, reporting apart the input that ends inside a number and the number
that goes on for too long. A scanned value is not cut to a machine word.
-/

namespace CallTrace.Varint

/-- The shortest base-128 form of a number. -/
def encode (n : Nat) : List UInt8 :=
  if n < 128 then [UInt8.ofNat n]
  else UInt8.ofNat (128 + n % 128) :: encode (n / 128)

/-- What stands at the front of the input. -/
inductive Scan where
  /-- A number, and the input behind it. -/
  | value (n : Nat) (rest : List UInt8)
  /-- Every byte up to the end of the input has its high bit set. -/
  | truncated
  /-- The allowed number of bytes all have their high bit set. -/
  | overlong (rest : List UInt8)
  deriving DecidableEq

/-- Put a seven-bit group below the groups that follow it. -/
def Scan.below (low : Nat) : Scan → Scan
  | .value n rest => .value (low + 128 * n) rest
  | .truncated => .truncated
  | .overlong rest => .overlong rest

/-- Read one number of at most `limit` bytes. -/
def scan : (limit : Nat) → List UInt8 → Scan
  | 0, bytes => .overlong bytes
  | _ + 1, [] => .truncated
  | limit + 1, b :: bytes =>
    if b.toNat < 128 then .value b.toNat bytes
    else (scan limit bytes).below (b.toNat - 128)

/-- Read one number where its faults need not be told apart. -/
def read? (limit : Nat) (bytes : List UInt8) : Option (Nat × List UInt8) :=
  match scan limit bytes with
  | .value n rest => some (n, rest)
  | _ => none

theorem scan_zero (bytes : List UInt8) : scan 0 bytes = .overlong bytes := by
  cases bytes <;> rfl

theorem scan_nil (limit : Nat) : scan (limit + 1) [] = .truncated := rfl

theorem scan_cons (limit : Nat) (b : UInt8) (bytes : List UInt8) :
    scan (limit + 1) (b :: bytes) =
      if b.toNat < 128 then .value b.toNat bytes
      else (scan limit bytes).below (b.toNat - 128) := rfl

/-- A scanned number takes at least one byte. -/
theorem length_lt_of_scan {limit n : Nat} {bytes rest : List UInt8}
    (h : scan limit bytes = .value n rest) : rest.length < bytes.length := by
  induction bytes generalizing limit n with
  | nil => cases limit <;> simp [scan] at h
  | cons b bytes ih =>
    cases limit with
    | zero => simp [scan] at h
    | succ limit =>
      rw [scan_cons] at h
      split at h
      · cases h; simp
      · cases hs : scan limit bytes with
        | value m r =>
          rw [hs] at h
          cases h
          exact Nat.lt_succ_of_lt (ih hs)
        | truncated => rw [hs] at h; cases h
        | overlong r => rw [hs] at h; cases h

theorem length_lt_of_read? {limit n : Nat} {bytes rest : List UInt8}
    (h : read? limit bytes = some (n, rest)) : rest.length < bytes.length := by
  unfold read? at h
  split at h
  · next m r hs =>
    cases h
    exact length_lt_of_scan hs
  · cases h

end CallTrace.Varint
